import BpfBackend.Foundation.DelimitedText
import BpfBackend.MC.InstPrinter
import BpfBackend.MC.InstructionStream
import Mathlib.Data.List.Nodup

/-! # Assembly listings

The streamer of an assembly file prints each instruction on a line of its own.
The text determines what the object streamer writes for the same instructions.
-/

namespace BpfBackend.MC

open DelimitedText

/-! ## Printed characters -/

def decimal : Int → List Char
  | .ofNat value => Nat.toDigits 10 value
  | .negSucc value => '-' :: Nat.toDigits 10 (value + 1)

/-- What LLVM prints for an expression, and for an operand as a whole. -/
structure AsmWriter where
  expr : MCExpr → List Char
  operand : MCOperand → List Char

def AsmToken.chars (writer : AsmWriter) : AsmToken → List Char
  | text literal => literal.toList
  | register name => name.toList
  | integer value => decimal value
  | expr expression => writer.expr expression
  | operand whole => writer.operand whole

/-- The generated printer starts with a tab, and the streamer ends the line. -/
def printInstructions (writer : AsmWriter) : List MCInst → Compile (List Char)
  | [] => .ok []
  | inst :: rest => do
      let tokens ← printInst inst
      let restText ← printInstructions writer rest
      pure ('\t' :: tokens.flatMap (AsmToken.chars writer) ++ '\n' :: restText)

def MCOperand.symbol? : MCOperand → Option MCSymbol
  | expr (.SymbolRef symbol) => some symbol
  | _ => none

def MCInst.symbols (inst : MCInst) : List MCSymbol := inst.operands.filterMap MCOperand.symbol?

/-- Symbols have names of their own on one line, none of which reads as an
integer. A symbolic operand is dumped as `MCOperand::print` of LLVM does. -/
structure AsmWriter.Readable (writer : AsmWriter) (symbols : List MCSymbol) : Prop where
  apart : ∀ left ∈ symbols, ∀ right ∈ symbols,
    writer.expr (.SymbolRef left) = writer.expr (.SymbolRef right) → left = right
  notInteger : ∀ symbol ∈ symbols, ∀ value : Int,
    writer.expr (.SymbolRef symbol) ≠ decimal value
  line : ∀ symbol ∈ symbols, '\n' ∉ writer.expr (.SymbolRef symbol)
  operand : ∀ symbol ∈ symbols, writer.operand (.expr (.SymbolRef symbol)) =
    "<MCOperand Expr:(".toList ++ writer.expr (.SymbolRef symbol) ++ ")>".toList

/-! ## Integers and registers -/

private theorem decimal_digits {value : Int} {symbol : Char} (member : symbol ∈ decimal value) :
    symbol = '-' ∨ symbol.isDigit = true := by
  cases value with
  | ofNat value => exact .inr (Nat.isDigit_of_mem_toDigits (by decide) (by decide) member)
  | negSucc value =>
      rcases List.mem_cons.mp member with sign | digit
      · exact .inl sign
      · exact .inr (Nat.isDigit_of_mem_toDigits (by decide) (by decide) digit)

private theorem notMem_decimal {symbol : Char} (value : Int) (notSign : symbol ≠ '-')
    (notDigit : symbol.isDigit = false) : symbol ∉ decimal value := by
  intro member
  rcases decimal_digits member with sign | digit
  · exact notSign sign
  · rw [notDigit] at digit
    cases digit

private theorem ne_decimal_of_mem {text : List Char} {symbol : Char} (member : symbol ∈ text)
    (notSign : symbol ≠ '-') (notDigit : symbol.isDigit = false) (value : Int) :
    text ≠ decimal value := by
  intro same
  rw [same] at member
  exact notMem_decimal value notSign notDigit member

private theorem toDigits_inj {left right : Nat}
    (same : Nat.toDigits 10 left = Nat.toDigits 10 right) : left = right := by
  have values := congrArg (fun digits => Nat.ofDigitChars 10 digits 0) same
  simpa only [Nat.ofDigitChars_ten_toDigits] using values

private theorem notMem_toDigits_sign (value : Nat) : '-' ∉ Nat.toDigits 10 value := by
  intro member
  have digit := Nat.isDigit_of_mem_toDigits (by decide) (by decide) member
  revert digit
  decide

private theorem decimal_inj {left right : Int} (same : decimal left = decimal right) :
    left = right := by
  cases left with
  | ofNat left =>
      cases right with
      | ofNat right => exact congrArg Int.ofNat (toDigits_inj same)
      | negSucc right =>
          have member : '-' ∈ Nat.toDigits 10 left := by
            change Nat.toDigits 10 left = '-' :: Nat.toDigits 10 (right + 1) at same
            rw [same]
            exact List.mem_cons_self
          exact absurd member (notMem_toDigits_sign left)
  | negSucc left =>
      cases right with
      | ofNat right =>
          have member : '-' ∈ Nat.toDigits 10 right := by
            change '-' :: Nat.toDigits 10 (left + 1) = Nat.toDigits 10 right at same
            rw [← same]
            exact List.mem_cons_self
          exact absurd member (notMem_toDigits_sign right)
      | negSucc right =>
          have digits := (List.cons.inj same).2
          have values := toDigits_inj digits
          rw [Nat.succ_inj] at values
          rw [values]

private theorem decimal_int32_inj {left right : BitVec 64}
    (same : decimal (int32 left) = decimal (int32 right)) :
    left.setWidth 32 = right.setWidth 32 := BitVec.toInt_inj.mp (decimal_inj same)

private theorem getRegisterName_inj {left right : Reg}
    (same : (getRegisterName left).toList = (getRegisterName right).toList) : left = right := by
  revert same
  cases left <;> cases right <;> decide

theorem notMem_registerName (register : Reg) :
    ',' ∉ (getRegisterName register).toList ∧ ' ' ∉ (getRegisterName register).toList ∧
      ')' ∉ (getRegisterName register).toList ∧ '\n' ∉ (getRegisterName register).toList := by
  cases register <;> decide

/-! ## The line of a form -/

def Target.token : Target → AsmToken
  | imm value => .integer (int32 value)
  | symbol name => .expr (.SymbolRef name)

def Target.wideToken : Target → AsmToken
  | imm value => .integer value.toNat
  | symbol name => .operand (.expr (.SymbolRef name))

def Form.tokens : Form → List AsmToken
  | JMP_RR jcc rA rX dst =>
      [.text jcc.asmstr, .text "\t", .register (getRegisterName rA), .text ", ",
        .register (getRegisterName rX), .text " goto ", dst.token]
  | JMP_RI jcc rA imm dst =>
      [.text jcc.asmstr, .text "i\t", .register (getRegisterName rA), .text ", ",
        .integer (int32 imm), .text " goto ", dst.token]
  | ALU_RR alu rA rX =>
      [.text alu.asmstr, .text "\t", .register (getRegisterName rA), .text ", ",
        .register (getRegisterName rX)]
  | ALU_RI alu rA imm =>
      [.text alu.asmstr, .text "i\t", .register (getRegisterName rA), .text ", ",
        .integer (int32 imm)]
  | MOV_RR rA rX =>
      [.text "mov", .text "\t", .register (getRegisterName rA), .text ", ",
        .register (getRegisterName rX)]
  | MOV_RI rA imm =>
      [.text "mov", .text "\t", .register (getRegisterName rA), .text ", ",
        .integer (int32 imm)]
  | LD_IMM64 rA imm =>
      [.text "ld_64", .text "\t", .register (getRegisterName rA), .text ", ", imm.wideToken]
  | STORE size rX base offset =>
      [.text size.storeAsm, .text "\t", .integer offset.toInt, .text "(",
        .register (getRegisterName base), .text ")", .text ", ", .register (getRegisterName rX)]
  | LOAD size rA base offset =>
      [.text size.loadAsm, .text "\t", .register (getRegisterName rA), .text ", ",
        .integer offset.toInt, .text "(", .register (getRegisterName base), .text ")"]
  | BRANCH dst => [.text "jmp", .text "\t", dst.token]
  | CALL dst => [.text "call", .text "\t", dst.token]
  | NOP_I imm => [.text "nop", .text "\t", .integer (int32 imm)]
  | RET => [.text "ret"]
  | XADD size dst base offset =>
      [.text size.xaddAsm, .text "\t", .register (getRegisterName dst), .text ", ",
        .integer offset.toInt, .text "(", .register (getRegisterName base), .text ")",
        .text ", ", .register (getRegisterName dst)]

private theorem Form.printInst_toMCInst (form : Form) :
    printInst form.toMCInst = .ok form.tokens := by
  cases form with
  | JMP_RR jcc rA rX dst => cases dst <;> rfl
  | JMP_RI jcc rA imm dst => cases dst <;> rfl
  | LD_IMM64 rA imm => cases imm <;> rfl
  | BRANCH dst => cases dst <;> rfl
  | CALL dst => cases dst <;> rfl
  | _ => rfl

def Opcode.mnemonic : Opcode → List Char
  | J_rr jcc => jcc.asmstr.toList
  | J_ri jcc => jcc.asmstr.toList ++ ['i']
  | ALU_rr alu => alu.asmstr.toList
  | ALU_ri alu => alu.asmstr.toList ++ ['i']
  | MOV_rr | MOV_ri => "mov".toList
  | LD_imm64 => "ld_64".toList
  | ST size => size.storeAsm.toList
  | LD size => size.loadAsm.toList
  | JMP => "jmp".toList
  | JAL => "call".toList
  | NOP => "nop".toList
  | RET => "ret".toList
  | XADD size => size.xaddAsm.toList
  | ADJCALLSTACKDOWN | ADJCALLSTACKUP | Select => []

private theorem Opcode.tab_notMem_mnemonic (opcode : Opcode) : '\t' ∉ opcode.mnemonic := by
  cases opcode with
  | J_rr jcc => cases jcc <;> decide
  | J_ri jcc => cases jcc <;> decide
  | ALU_rr alu => cases alu <;> decide
  | ALU_ri alu => cases alu <;> decide
  | ST size => cases size <;> decide
  | LD size => cases size <;> decide
  | XADD size => cases size <;> decide
  | _ => decide

/-- Moves of registers and of immediates are called the same. -/
def Opcode.printedAs : Opcode → Opcode
  | MOV_ri => MOV_rr
  | opcode => opcode

def Opcode.printed : List Opcode :=
  let conditions := [.JEQ, .JUGT, .JUGE, .JNE, .JSGT, .JSGE]
  let operations := [.ADD, .SUB, .OR, .AND, .SLL, .SRL, .XOR, .SRA, .MUL, .DIV]
  let sizes := [.W, .H, .B, .D]
  conditions.map J_rr ++ conditions.map J_ri ++ operations.map ALU_rr ++ operations.map ALU_ri ++
    sizes.map ST ++ sizes.map LD ++ sizes.map XADD ++ [MOV_rr, LD_imm64, JMP, JAL, NOP, RET]

private theorem Opcode.nodup_mnemonics : (printed.map mnemonic).Nodup := by decide

private theorem Opcode.printedAs_mem {opcode : Opcode} (real : opcode.isPseudo = false) :
    opcode.printedAs ∈ printed := by
  cases opcode with
  | J_rr jcc => cases jcc <;> decide
  | J_ri jcc => cases jcc <;> decide
  | ALU_rr alu => cases alu <;> decide
  | ALU_ri alu => cases alu <;> decide
  | ST size => cases size <;> decide
  | LD size => cases size <;> decide
  | XADD size => cases size <;> decide
  | ADJCALLSTACKDOWN => cases real
  | ADJCALLSTACKUP => cases real
  | Select => cases real
  | _ => decide

private theorem Opcode.mnemonic_printedAs (opcode : Opcode) :
    opcode.printedAs.mnemonic = opcode.mnemonic := by
  cases opcode <;> rfl

private theorem Opcode.mnemonic_inj {opcode other : Opcode} (real : opcode.isPseudo = false)
    (otherReal : other.isPseudo = false) (same : opcode.mnemonic = other.mnemonic) :
    opcode.printedAs = other.printedAs := by
  apply List.inj_on_of_nodup_map nodup_mnemonics (printedAs_mem real) (printedAs_mem otherReal)
  rw [mnemonic_printedAs, mnemonic_printedAs, same]

private theorem Form.not_isPseudo (form : Form) : form.toMCInst.opcode.isPseudo = false := by
  cases form <;> rfl

@[simp] theorem newline_notMem_decimal (value : Int) : '\n' ∉ decimal value :=
  notMem_decimal value (by decide) (by decide)

@[simp] theorem JccOp.newline_notMem_asmstr (jcc : JccOp) : '\n' ∉ jcc.asmstr.toList := by
  cases jcc <;> decide

@[simp] theorem AluOp.newline_notMem_asmstr (alu : AluOp) : '\n' ∉ alu.asmstr.toList := by
  cases alu <;> decide

@[simp] theorem SizeOp.newline_notMem_asm (size : SizeOp) :
    '\n' ∉ size.storeAsm.toList ∧ '\n' ∉ size.loadAsm.toList ∧ '\n' ∉ size.xaddAsm.toList := by
  cases size <;> decide

section Lines

variable {writer : AsmWriter}

theorem Form.starts_with_mnemonic (form : Form) :
    ∃ rest, form.tokens.flatMap (AsmToken.chars writer) ++ ['\t'] =
      form.toMCInst.opcode.mnemonic ++ '\t' :: rest := by
  cases form <;>
    exact ⟨_, by simp [tokens, AsmToken.chars, toMCInst, Opcode.mnemonic]; rfl⟩

theorem Form.printedAs_eq {form other : Form}
    (same : form.tokens.flatMap (AsmToken.chars writer) =
      other.tokens.flatMap (AsmToken.chars writer)) :
    form.toMCInst.opcode.printedAs = other.toMCInst.opcode.printedAs := by
  rcases @starts_with_mnemonic writer form with ⟨rest, starts⟩
  rcases @starts_with_mnemonic writer other with ⟨otherRest, otherStarts⟩
  rw [same, otherStarts] at starts
  have mnemonics := append_cons_inj (Opcode.tab_notMem_mnemonic _) (Opcode.tab_notMem_mnemonic _)
    starts
  exact Opcode.mnemonic_inj form.not_isPseudo other.not_isPseudo mnemonics.1.symm

theorem aligned_register (register other : Reg) {separator : String} {delimiter : Char}
    {text : List Char} {rest otherRest : List AsmToken}
    (starts : separator.toList = delimiter :: text)
    (separates : delimiter = ',' ∨ delimiter = ' ' ∨ delimiter = ')')
    (aligned : Aligned (AsmToken.chars writer) rest otherRest) :
    Aligned (AsmToken.chars writer)
      (.register (getRegisterName register) :: .text separator :: rest)
      (.register (getRegisterName other) :: .text separator :: otherRest) := by
  have absent := notMem_registerName register
  have otherAbsent := notMem_registerName other
  rcases separates with rfl | rfl | rfl
  · exact .separated starts absent.1 otherAbsent.1 aligned
  · exact .separated starts absent.2.1 otherAbsent.2.1 aligned
  · exact .separated starts absent.2.2.1 otherAbsent.2.2.1 aligned

private theorem aligned_integer (value other : Int) {separator : String} {delimiter : Char}
    {text : List Char} {rest otherRest : List AsmToken}
    (starts : separator.toList = delimiter :: text)
    (separates : delimiter ≠ '-' ∧ delimiter.isDigit = false)
    (aligned : Aligned (AsmToken.chars writer) rest otherRest) :
    Aligned (AsmToken.chars writer) (.integer value :: .text separator :: rest)
      (.integer other :: .text separator :: otherRest) :=
  .separated starts (notMem_decimal value separates.1 separates.2)
    (notMem_decimal other separates.1 separates.2) aligned

theorem eq_of_twoOperands {mnemonic tab : String} {register other : Reg}
    {operand otherOperand : AsmToken}
    (same : [.text mnemonic, .text tab, .register (getRegisterName register), .text ", ",
        operand].flatMap (AsmToken.chars writer) =
      [.text mnemonic, .text tab, .register (getRegisterName other), .text ", ",
        otherOperand].flatMap (AsmToken.chars writer)) :
    register = other ∧ operand.chars writer = otherOperand.chars writer := by
  have aligned : Aligned (AsmToken.chars writer)
      [.text mnemonic, .text tab, .register (getRegisterName register), .text ", ", operand]
      [.text mnemonic, .text tab, .register (getRegisterName other), .text ", ",
        otherOperand] :=
    .same _ (.same _ (aligned_register register other rfl (by decide) (.last _ _)))
  have texts := aligned.map_eq _ same
  simp only [List.map_cons, List.cons.injEq, true_and, and_true] at texts
  exact ⟨getRegisterName_inj texts.1, texts.2⟩

def Form.line (writer : AsmWriter) (form : Form) : List Char :=
  '\t' :: form.tokens.flatMap (AsmToken.chars writer)

private theorem printInstructions_forms (forms : List Form) :
    printInstructions writer (forms.map Form.toMCInst) =
      .ok (lines '\n' (forms.map (Form.line writer))) := by
  induction forms with
  | nil => rfl
  | cons form rest induction =>
      rw [List.map_cons, printInstructions, form.printInst_toMCInst, induction]
      simp only [bind, Except.bind, pure, Except.pure, lines, List.map_cons, List.flatMap_cons,
        Form.line, List.append_assoc, List.singleton_append]

/-! ## Operands from their text -/

def Target.symbols : Target → List MCSymbol
  | imm _ => []
  | symbol name => [name]

def Form.symbols : Form → List MCSymbol
  | JMP_RR _ _ _ dst | JMP_RI _ _ _ dst | BRANCH dst | CALL dst => dst.symbols
  | LD_IMM64 _ imm => imm.symbols
  | _ => []

private theorem Form.symbols_toMCInst (form : Form) : form.toMCInst.symbols = form.symbols := by
  cases form with
  | JMP_RR jcc rA rX dst => cases dst <;> rfl
  | JMP_RI jcc rA imm dst => cases dst <;> rfl
  | LD_IMM64 rA imm => cases imm <;> rfl
  | BRANCH dst => cases dst <;> rfl
  | CALL dst => cases dst <;> rfl
  | _ => rfl

private theorem registerName_ne_decimal (register : Reg) (value : Int) :
    (getRegisterName register).toList ≠ decimal value := by
  have letter : 'r' ∈ (getRegisterName register).toList := by cases register <;> decide
  exact ne_decimal_of_mem letter (by decide) (by decide) value

private theorem setWidth_half {left right : BitVec 64}
    (same : left.setWidth 32 = right.setWidth 32) :
    left.setWidth 16 = right.setWidth 16 := by
  have halves := congrArg (BitVec.setWidth 16) same
  rwa [BitVec.setWidth_setWidth_of_le _ (by decide), BitVec.setWidth_setWidth_of_le _ (by decide)]
    at halves

section Operands

variable {symbols : List MCSymbol} (readable : writer.Readable symbols)
include readable

private theorem dumped_ne_decimal {symbol : MCSymbol} (member : symbol ∈ symbols) (value : Int) :
    writer.operand (.expr (.SymbolRef symbol)) ≠ decimal value := by
  rw [readable.operand symbol member]
  have bracket : '<' ∈ "<MCOperand Expr:(".toList ++ writer.expr (.SymbolRef symbol) ++
      ")>".toList := List.mem_cons_self
  exact ne_decimal_of_mem bracket (by decide) (by decide) value

theorem Target.eq_of_token {target other : Target}
    (named : ∀ symbol ∈ target.symbols, symbol ∈ symbols)
    (otherNamed : ∀ symbol ∈ other.symbols, symbol ∈ symbols)
    (same : target.token.chars writer = other.token.chars writer) :
    target.bits.setWidth 32 = other.bits.setWidth 32 ∧
      target.fixups = other.fixups := by
  cases target with
  | imm value =>
      cases other with
      | imm otherValue => exact ⟨decimal_int32_inj same, rfl⟩
      | symbol otherName =>
          exact absurd same.symm
            (readable.notInteger otherName (otherNamed otherName List.mem_cons_self) _)
  | symbol name =>
      have member := named name List.mem_cons_self
      cases other with
      | imm otherValue => exact absurd same (readable.notInteger name member _)
      | symbol otherName =>
          have equal := readable.apart name member otherName
            (otherNamed otherName List.mem_cons_self) same
          rw [equal]
          exact ⟨rfl, rfl⟩

private theorem Target.eq_of_wideToken {target other : Target}
    (named : ∀ symbol ∈ target.symbols, symbol ∈ symbols)
    (otherNamed : ∀ symbol ∈ other.symbols, symbol ∈ symbols)
    (same : target.wideToken.chars writer = other.wideToken.chars writer) : target = other := by
  cases target with
  | imm value =>
      cases other with
      | imm otherValue =>
          have values : (value.toNat : Int) = otherValue.toNat := decimal_inj same
          rw [BitVec.eq_of_toNat_eq (Int.ofNat_inj.mp values)]
      | symbol otherName =>
          have differs := dumped_ne_decimal readable (otherNamed otherName List.mem_cons_self)
            value.toNat
          exact absurd same.symm differs
  | symbol name =>
      have member := named name List.mem_cons_self
      cases other with
      | imm otherValue => exact absurd same (dumped_ne_decimal readable member otherValue.toNat)
      | symbol otherName =>
          have otherMember := otherNamed otherName List.mem_cons_self
          simp only [wideToken, AsmToken.chars, readable.operand name member,
            readable.operand otherName otherMember, List.append_cancel_left_eq,
            List.append_cancel_right_eq] at same
          rw [readable.apart name member otherName otherMember same]

theorem Form.encoded_of_line {form other : Form}
    (named : ∀ symbol ∈ form.symbols, symbol ∈ symbols)
    (otherNamed : ∀ symbol ∈ other.symbols, symbol ∈ symbols)
    (same : form.tokens.flatMap (AsmToken.chars writer) =
      other.tokens.flatMap (AsmToken.chars writer)) :
    form.bytes = other.bytes ∧ form.fixups = other.fixups := by
  have sameOpcode := printedAs_eq same
  cases form with
  | JMP_RR jcc rA rX dst =>
      cases other with
      | JMP_RR otherJcc otherA otherX otherDst =>
          cases sameOpcode
          have texts := Aligned.map_eq _ (.same _ (.same _ (aligned_register rA otherA rfl
            (by decide) (aligned_register rX otherX rfl (by decide) (.last _ _))))) same
          simp only [List.map_cons, AsmToken.chars, List.cons.injEq, true_and, and_true] at texts
          rcases texts with ⟨first, second, target⟩
          have targets := Target.eq_of_token readable named otherNamed target
          have half := setWidth_half targets.1
          rw [getRegisterName_inj first, getRegisterName_inj second]
          constructor
          · simp only [bytes, word, placed, half]
          · exact congrFun targets.2 _
      | _ => cases sameOpcode
  | JMP_RI jcc rA imm dst =>
      cases other with
      | JMP_RI otherJcc otherA otherImm otherDst =>
          cases sameOpcode
          have texts := Aligned.map_eq _ (.same _ (.same _ (aligned_register rA otherA rfl
            (by decide) (aligned_integer _ _ rfl (by decide) (.last _ _))))) same
          simp only [List.map_cons, AsmToken.chars, List.cons.injEq, true_and, and_true] at texts
          rcases texts with ⟨first, second, target⟩
          have targets := Target.eq_of_token readable named otherNamed target
          have half := setWidth_half targets.1
          rw [getRegisterName_inj first]
          constructor
          · simp only [bytes, word, placed, half, decimal_int32_inj second]
          · exact congrFun targets.2 _
      | _ => cases sameOpcode
  | ALU_RR alu rA rX =>
      cases other with
      | ALU_RR otherAlu otherA otherX =>
          cases sameOpcode
          rcases eq_of_twoOperands same with ⟨rfl, second⟩
          rw [getRegisterName_inj second]
          exact ⟨rfl, rfl⟩
      | _ => cases sameOpcode
  | ALU_RI alu rA imm =>
      cases other with
      | ALU_RI otherAlu otherA otherImm =>
          cases sameOpcode
          rcases eq_of_twoOperands same with ⟨rfl, second⟩
          constructor
          · simp only [bytes, word, placed, decimal_int32_inj second]
          · rfl
      | _ => cases sameOpcode
  | MOV_RR rA rX =>
      cases other with
      | MOV_RR otherA otherX =>
          rcases eq_of_twoOperands same with ⟨rfl, second⟩
          rw [getRegisterName_inj second]
          exact ⟨rfl, rfl⟩
      | MOV_RI otherA otherImm =>
          rcases eq_of_twoOperands same with ⟨rfl, second⟩
          exact absurd second (registerName_ne_decimal rX _)
      | _ => cases sameOpcode
  | MOV_RI rA imm =>
      cases other with
      | MOV_RI otherA otherImm =>
          rcases eq_of_twoOperands same with ⟨rfl, second⟩
          constructor
          · simp only [bytes, word, placed, decimal_int32_inj second]
          · rfl
      | MOV_RR otherA otherX =>
          rcases eq_of_twoOperands same with ⟨rfl, second⟩
          exact absurd second.symm (registerName_ne_decimal otherX _)
      | _ => cases sameOpcode
  | LD_IMM64 rA imm =>
      cases other with
      | LD_IMM64 otherA otherImm =>
          rcases eq_of_twoOperands same with ⟨rfl, second⟩
          rw [Target.eq_of_wideToken readable named otherNamed second]
          exact ⟨rfl, rfl⟩
      | _ => cases sameOpcode
  | STORE size rX base offset =>
      cases other with
      | STORE otherSize otherX otherBase otherOffset =>
          cases sameOpcode
          have texts := Aligned.map_eq _ (.same _ (.same _ (aligned_integer _ _ rfl (by decide)
            (aligned_register base otherBase rfl (by decide) (.same _ (.last _ _)))))) same
          simp only [List.map_cons, AsmToken.chars, List.cons.injEq, true_and, and_true] at texts
          rcases texts with ⟨first, second, third⟩
          rw [BitVec.toInt_inj.mp (decimal_inj first), getRegisterName_inj second,
            getRegisterName_inj third]
          exact ⟨rfl, rfl⟩
      | _ => cases sameOpcode
  | LOAD size rA base offset =>
      cases other with
      | LOAD otherSize otherA otherBase otherOffset =>
          cases sameOpcode
          have texts := Aligned.map_eq _ (.same _ (.same _ (aligned_register rA otherA rfl
            (by decide) (aligned_integer _ _ rfl (by decide)
              (aligned_register base otherBase rfl (by decide) .nil))))) same
          simp only [List.map_cons, AsmToken.chars, List.cons.injEq, true_and, and_true] at texts
          rcases texts with ⟨first, second, third⟩
          rw [getRegisterName_inj first, BitVec.toInt_inj.mp (decimal_inj second),
            getRegisterName_inj third]
          exact ⟨rfl, rfl⟩
      | _ => cases sameOpcode
  | BRANCH dst =>
      cases other with
      | BRANCH otherDst =>
          have texts := Aligned.map_eq _ (.same _ (.same _ (.last _ _))) same
          simp only [List.map_cons, List.cons.injEq, true_and, and_true] at texts
          have targets := Target.eq_of_token readable named otherNamed texts
          have half := setWidth_half targets.1
          constructor
          · simp only [bytes, word, placed, half]
          · exact congrFun targets.2 _
      | _ => cases sameOpcode
  | CALL dst =>
      cases other with
      | CALL otherDst =>
          have texts := Aligned.map_eq _ (.same _ (.same _ (.last _ _))) same
          simp only [List.map_cons, List.cons.injEq, true_and, and_true] at texts
          have targets := Target.eq_of_token readable named otherNamed texts
          constructor
          · simp only [bytes, word, placed, targets.1]
          · exact congrFun targets.2 _
      | _ => cases sameOpcode
  | NOP_I imm =>
      cases other with
      | NOP_I otherImm => exact ⟨rfl, rfl⟩
      | _ => cases sameOpcode
  | RET =>
      cases other with
      | RET => exact ⟨rfl, rfl⟩
      | _ => cases sameOpcode
  | XADD size dst base offset =>
      cases other with
      | XADD otherSize otherDst otherBase otherOffset =>
          cases sameOpcode
          have texts := Aligned.map_eq _ (.same _ (.same _ (aligned_register dst otherDst rfl
            (by decide) (aligned_integer _ _ rfl (by decide) (aligned_register base otherBase rfl
              (by decide) (.same _ (.last _ _))))))) same
          simp only [List.map_cons, AsmToken.chars, List.cons.injEq, true_and, and_true] at texts
          rcases texts with ⟨first, second, third, -⟩
          rw [getRegisterName_inj first, BitVec.toInt_inj.mp (decimal_inj second),
            getRegisterName_inj third]
          exact ⟨rfl, rfl⟩
      | _ => cases sameOpcode

/-! ## Lines of a listing -/

private theorem Target.newline_notMem {target : Target}
    (named : ∀ symbol ∈ target.symbols, symbol ∈ symbols) :
    '\n' ∉ target.token.chars writer ∧ '\n' ∉ target.wideToken.chars writer := by
  cases target with
  | imm value =>
      exact ⟨newline_notMem_decimal (int32 value), newline_notMem_decimal value.toNat⟩
  | symbol name =>
      have member := named name List.mem_cons_self
      have line := readable.line name member
      have dumped : '\n' ∉ writer.operand (.expr (.SymbolRef name)) := by
        rw [readable.operand name member]
        simp [line]
      exact ⟨line, dumped⟩

private theorem Form.newline_notMem {form : Form}
    (named : ∀ symbol ∈ form.symbols, symbol ∈ symbols) :
    '\n' ∉ form.tokens.flatMap (AsmToken.chars writer) := by
  have registers := fun register => (notMem_registerName register).2.2.2
  cases form with
  | JMP_RR jcc rA rX dst =>
      have target := (Target.newline_notMem readable named).1
      simpa [tokens, AsmToken.chars, registers] using target
  | JMP_RI jcc rA imm dst =>
      have target := (Target.newline_notMem readable named).1
      simpa [tokens, AsmToken.chars, registers] using target
  | LD_IMM64 rA imm =>
      have target := (Target.newline_notMem readable named).2
      simpa [tokens, AsmToken.chars, registers] using target
  | BRANCH dst =>
      have target := (Target.newline_notMem readable named).1
      simpa [tokens, AsmToken.chars] using target
  | CALL dst =>
      have target := (Target.newline_notMem readable named).1
      simpa [tokens, AsmToken.chars] using target
  | _ => simp [tokens, AsmToken.chars, registers]

private theorem newline_notMem_lines {forms : List Form}
    (named : ∀ form ∈ forms, ∀ symbol ∈ form.symbols, symbol ∈ symbols) :
    ∀ line ∈ forms.map (Form.line writer), '\n' ∉ line := by
  intro line member
  rcases List.mem_map.mp member with ⟨form, formMember, rfl⟩
  have absent := Form.newline_notMem readable (named form formMember)
  simp [Form.line, absent]

theorem encoded_of_lines {forms others : List Form}
    (named : ∀ form ∈ forms, ∀ symbol ∈ form.symbols, symbol ∈ symbols)
    (otherNamed : ∀ other ∈ others, ∀ symbol ∈ other.symbols, symbol ∈ symbols)
    (same : forms.map (Form.line writer) = others.map (Form.line writer)) (start : Nat) :
    formBytes forms = formBytes others ∧ formFixups start forms = formFixups start others := by
  induction forms generalizing others start with
  | nil =>
      cases others with
      | nil => exact ⟨rfl, rfl⟩
      | cons other others => cases same
  | cons form forms induction =>
      cases others with
      | nil => cases same
      | cons other others =>
          rw [List.map_cons, List.map_cons, List.cons.injEq] at same
          rcases Form.encoded_of_line readable (named form List.mem_cons_self)
            (otherNamed other List.mem_cons_self) (List.cons.inj same.1).2 with
            ⟨sameBytes, sameFixups⟩
          rcases induction (fun later member => named later (List.mem_cons_of_mem _ member))
            (fun later member => otherNamed later (List.mem_cons_of_mem _ member)) same.2
            (start + form.bytes.length) with ⟨restBytes, restFixups⟩
          constructor
          · rw [formBytes, List.flatMap_cons, sameBytes]
            exact congrArg (other.bytes ++ ·) restBytes
          · rw [formFixups, formFixups, sameFixups, restFixups, sameBytes]

end Operands

end Lines

/-! ## The assembly file and the object file -/

/-- No listing is refused, and listings with the same text are of instructions
with the same bytes and the same fixups. -/
theorem emitInstructions_of_printInstructions (writer : AsmWriter) (insts others : List MCInst)
    (wellFormed : ∀ inst ∈ insts ++ others, inst.WellFormed)
    (readable : writer.Readable ((insts ++ others).flatMap MCInst.symbols)) :
    ∃ text otherText, printInstructions writer insts = .ok text ∧
      printInstructions writer others = .ok otherText ∧
      (text = otherText →
        ∀ start, emitInstructions start insts = emitInstructions start others) := by
  rcases exists_forms fun inst member =>
    wellFormed inst (List.mem_append_left others member) with ⟨forms, rfl⟩
  rcases exists_forms fun inst member =>
    wellFormed inst (List.mem_append_right (forms.map Form.toMCInst) member) with
    ⟨otherForms, rfl⟩
  have listed : ∀ form ∈ forms ++ otherForms, ∀ symbol ∈ form.symbols,
      symbol ∈ (forms.map Form.toMCInst ++ otherForms.map Form.toMCInst).flatMap
        MCInst.symbols := by
    intro form member symbol named
    rw [← List.map_append, List.flatMap_map]
    rw [← form.symbols_toMCInst] at named
    exact List.mem_flatMap.mpr ⟨form, member, named⟩
  have named := fun form member => listed form (List.mem_append_left otherForms member)
  have otherNamed := fun form member => listed form (List.mem_append_right forms member)
  refine ⟨_, _, printInstructions_forms forms, printInstructions_forms otherForms, ?_⟩
  intro same start
  have sameLines := lines_inj (newline_notMem_lines readable named)
    (newline_notMem_lines readable otherNamed) same
  have encoded := encoded_of_lines readable named otherNamed sameLines start
  rw [emitInstructions_forms, emitInstructions_forms, encoded.1, encoded.2]

def MCExpr.print : MCExpr → List Char
  | SymbolRef (.block number) => ".LBB0_".toList ++ Nat.toDigits 10 number
  | SymbolRef (.global name) => name.toList
  | Constant value => decimal value.toInt
  | Binary lhs rhs => lhs.print ++ '+' :: rhs.print

def elfWriter : AsmWriter where
  expr := MCExpr.print
  operand
    | .reg register => "<MCOperand Reg:".toList ++ (getRegisterName register).toList ++ ">".toList
    | .imm value => "<MCOperand Imm:".toList ++ decimal value.toInt ++ ">".toList
    | .expr expression => "<MCOperand Expr:(".toList ++ expression.print ++ ")>".toList

theorem emitInstructions_of_printInstructions_field :
    let insts : List MCInst :=
      [⟨.LD_imm64, [.reg .R1, .expr (.SymbolRef (.global "limits"))]⟩,
        ⟨.J_ri .JNE, [.reg .R1, .imm 5, .expr (.SymbolRef (.block 1))]⟩]
    let others : List MCInst :=
      [⟨.LD_imm64, [.reg .R1, .expr (.SymbolRef (.global "limits"))]⟩,
        ⟨.J_ri .JNE, [.reg .R1, .imm 0x100000005, .expr (.SymbolRef (.block 1))]⟩]
    ∃ text, printInstructions elfWriter insts = .ok text ∧
      printInstructions elfWriter others = .ok text ∧
      ∀ start, emitInstructions start insts = emitInstructions start others := by
  intro insts others
  have letters : ∀ symbol ∈ (insts ++ others).flatMap MCInst.symbols,
      'L' ∈ elfWriter.expr (.SymbolRef symbol) ∨ 'l' ∈ elfWriter.expr (.SymbolRef symbol) := by
    decide
  have notInteger : ∀ symbol ∈ (insts ++ others).flatMap MCInst.symbols, ∀ value : Int,
      elfWriter.expr (.SymbolRef symbol) ≠ decimal value := by
    intro symbol member value
    rcases letters symbol member with upper | lower
    · exact ne_decimal_of_mem upper (by decide) (by decide) value
    · exact ne_decimal_of_mem lower (by decide) (by decide) value
  have readable : elfWriter.Readable ((insts ++ others).flatMap MCInst.symbols) :=
    ⟨by decide, notInteger, by decide, by decide⟩
  rcases emitInstructions_of_printInstructions elfWriter insts others (by decide) readable with
    ⟨text, otherText, prints, otherPrints, determines⟩
  have same : text = otherText := by
    cases prints
    cases otherPrints
    rfl
  exact ⟨text, prints, same ▸ otherPrints, determines same⟩

end BpfBackend.MC
