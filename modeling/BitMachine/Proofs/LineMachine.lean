import BitMachine.Proofs.Encoding

namespace BitMachine.Source

/-!
# A machine that executes source lines

What a source text means, without words, tokens and digits: its lines are executed one after the
other over integers of any size.

* `LineMachine` — registers that hold an integer or nothing, and no memory: the lines stay where
  they are placed.
* `LineMachine.perform` — the effect of a line, or the trap that it ends in.
* `LineMachine.step`, `LineMachine.after` — one cycle, and any number of cycles.
-/

/-- Why a line machine stops other than by an EXIT. -/
inductive Trap where
  /-- No line is placed at the slot of the cycle. -/
  | emptySlot
  /-- An operand names a register that the machine does not have. -/
  | noRegister (index : UInt64)
  /-- A source register was never written. -/
  | unwritten (index : UInt64)
  /-- No line is placed where a MOV reads. -/
  | emptyAddress (slot : UInt64)
  /-- A source of an arithmetic operation is negative. -/
  | negative
  /-- A value is too large for the operation that reads it. -/
  | tooLarge
  /-- The divisor of a DIV is zero. -/
  | divisionByZero
  /-- A product is too large. -/
  | productTooLarge
  /-- The code of an EXIT is too large. -/
  | exitCode (code : UInt64)
deriving DecidableEq

/-- Whether a line machine goes on, and why not. -/
inductive LineStatus where
  /-- The machine goes on. -/
  | running
  /-- An EXIT stopped the machine with this code. -/
  | halted (code : Nat)
  /-- A trap stopped the machine. -/
  | trapped (trap : Trap)
deriving DecidableEq

/-- A machine that executes lines. -/
structure LineMachine where
  /-- What the registers hold. -/
  registers : List (Option Int)
  /-- The number of cycles so far, and the slot of the line executed last. -/
  cycle : Nat
  /-- Whether the machine goes on. -/
  status : LineStatus
  /-- What was emitted so far. -/
  emitted : List (Option Int)
deriving DecidableEq

/-- The line that is placed at a slot. -/
def placed (items : List (Address × Item)) (slot : Nat) : Option Item :=
  (items.find? fun entry => entry.1.slot.toNat == slot).map Prod.snd

/-- A slot is looked up by its number as it is by its address. -/
theorem placed_eq_lookup (items : List (Address × Item)) (addr : Address) :
    placed items addr.slot.toNat = items.lookup addr := by
  induction items with
  | nil => rfl
  | cons entry rest ih =>
    obtain ⟨a, item⟩ := entry
    have hiff : (a.slot.toNat == addr.slot.toNat) = (addr == a) := by
      rw [Bool.eq_iff_iff, beq_iff_eq, beq_iff_eq, UInt64.toNat_inj]
      constructor
      · intro h
        exact congrArg Address.mk h.symm
      · rintro rfl
        rfl
    unfold placed at ih ⊢
    rw [List.find?_cons, List.lookup_cons, hiff]
    cases addr == a with
    | true => rfl
    | false => exact ih

namespace LineMachine

/-- A line machine with registers that hold nothing. -/
def start (count : Nat) : LineMachine :=
  ⟨List.replicate count none, 0, .running, []⟩

/-- Refuses an operand that names no register. -/
def named (s : LineMachine) (index : UInt64) : Except Trap Unit :=
  if index.toNat < s.registers.length then .ok () else .error (.noRegister index)

/-- What a register holds. -/
def held (s : LineMachine) (index : UInt64) : Option Int :=
  s.registers[index.toNat]?.join

/-- What a source register holds; one that was never written is refused. -/
def read (s : LineMachine) (index : UInt64) : Except Trap Int :=
  match s.held index with
  | some value => .ok value
  | none => .error (.unwritten index)

/-- Writes a register. -/
def write (s : LineMachine) (index : UInt64) (value : Int) : LineMachine :=
  { s with registers := s.registers.set index.toNat (some value) }

/-- Emits a value. -/
def emit (s : LineMachine) (value : Option Int) : LineMachine :=
  { s with emitted := s.emitted ++ [value] }

/-- The source of an operation: a number that is not negative, and below 2^64 in a product or a
    quotient. -/
def accept (op : ArithOp) (value : Int) : Except Trap Nat :=
  if value < 0 then .error .negative
  else if (op = .mul ∨ op = .div) ∧ 2 ^ 64 ≤ value then .error .tooLarge
  else .ok value.toNat

/-- The exact result of an operation; a quotient is truncated. -/
def result : ArithOp → Nat → Nat → Except Trap Int
  | .add, x, y => .ok (x + y)
  | .sub, x, y => .ok (x - y)
  | .mul, x, y => if x * y < 2 ^ 64 then .ok (x * y : Nat) else .error .productTooLarge
  | .div, x, y => if y = 0 then .error .divisionByZero else .ok (x / y : Nat)

/-- The result of an operation on the values of its sources. -/
def compute (op : ArithOp) (a b : Int) : Except Trap Int := do
  let x ← accept op a
  let y ← accept op b
  result op x y

/-- The effect of a line. -/
def perform (items : List (Address × Item)) (s : LineMachine) : Item → Except Trap LineMachine
  | .data _ => .ok s
  | .loadValue dst value => do
    s.named dst
    return s.write dst value.toNat
  | .loadFrom dst slot => do
    s.named dst
    match placed items slot.toNat with
    | none => .error (.emptyAddress slot)
    | some item => return s.write dst item.head.toNat
  | .arith op lhs rhs dst => do
    s.named lhs
    s.named rhs
    s.named dst
    let a ← s.read lhs
    let b ← s.read rhs
    return s.write dst (← compute op a b)
  | .out src => do
    s.named src
    match s.held src with
    | none => return s.emit none
    | some value =>
      if -2 ^ 63 ≤ value ∧ value < 2 ^ 63 then return s.emit (some value)
      else .error .tooLarge
  | .exit code =>
    if code.toNat < 2 ^ 31 then .ok { s with status := .halted code.toNat }
    else .error (.exitCode code)

/-- Executes the line that is placed at the slot of the cycle. -/
def executeLine (items : List (Address × Item)) (s : LineMachine) : Except Trap LineMachine :=
  match placed items s.cycle with
  | none => .error .emptySlot
  | some item => s.perform items item

/-- The machine with the cycle counted. -/
def advance (s : LineMachine) : LineMachine :=
  { s with cycle := s.cycle + 1 }

/-- Stops a machine with a trap. -/
def stopWith (s : LineMachine) (trap : Trap) : LineMachine :=
  { s with status := .trapped trap }

/-- One cycle. A machine that has stopped stays as it is. -/
def step (items : List (Address × Item)) (s : LineMachine) : LineMachine :=
  if s.status ≠ .running then s
  else
    match s.advance.executeLine items with
    | .ok s' => s'
    | .error trap => s.advance.stopWith trap

/-- Any number of cycles. -/
def after (items : List (Address × Item)) (s : LineMachine) : Nat → LineMachine
  | 0 => s
  | k + 1 => (s.after items k).step items

end LineMachine

end BitMachine.Source
