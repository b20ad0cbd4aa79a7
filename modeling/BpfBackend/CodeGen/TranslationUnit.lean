import BpfBackend.CodeGen.FrameLowering
import BpfBackend.MC.TextSection

/-! # Translation units

The functions of a translation unit go through frame lowering, branch edits and
instruction lowering one by one, and their code shares one text section.
-/

namespace BpfBackend.CodeGen

open MC Simulation

/-! ## Compiling functions -/

end BpfBackend.CodeGen
