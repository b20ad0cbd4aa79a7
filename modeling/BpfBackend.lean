import BpfBackend.MC.Decoder
import BpfBackend.MC.InstructionStream
import BpfBackend.MC.EmittedStreams
import BpfBackend.Foundation.Layout
import BpfBackend.MC.AsmBackend
import BpfBackend.MC.BranchLayout
import BpfBackend.MC.BranchRange
import BpfBackend.CodeGen.SelectionDAG
import BpfBackend.CodeGen.AddressSelection
import BpfBackend.CodeGen.InstructionSelection
import BpfBackend.CodeGen.AtomicAdd
import BpfBackend.CodeGen.ConditionCodes
import BpfBackend.CodeGen.MachineFunction
import BpfBackend.CodeGen.SelectExpansion
import BpfBackend.CodeGen.SelectSimulation
import BpfBackend.CodeGen.SymbolReferences
import BpfBackend.CodeGen.CallingConvention
import BpfBackend.CodeGen.CallLowering
import BpfBackend.CodeGen.OperationLegality
import BpfBackend.CodeGen.FunctionLowering
import BpfBackend.CodeGen.BranchRewriting
import BpfBackend.MC.CodePadding
import BpfBackend.CodeGen.ConstantCalls
import BpfBackend.MC.InstPrinter
import BpfBackend.MC.AssemblyListing
import BpfBackend.CodeGen.CompareBranch
import BpfBackend.CodeGen.FrameIndex
import BpfBackend.CodeGen.SpillSlots
import BpfBackend.CodeGen.SelectionSimulation
import BpfBackend.CodeGen.CallChains
import BpfBackend.MC.TextSection
import BpfBackend.CodeGen.TranslationUnit
