import BitMachine.Memory.Cells

/-!
# Memory

A sparse store of words with an optional capacity. Words are placed at explicit addresses or
sequentially; sequential placement always goes on above every address that has been used, and
stops for good once the last address has been used.

* `Memory.insert`, `Memory.insertAt`, `Memory.delete`, `Memory.clear` — the four changes, each with
  the memory that it leaves behind and its result. One that fails checks before it writes.
* `Memory.get`, `Memory.contains`, `Memory.entries`, `Memory.dump` — the views.
-/

namespace BitMachine

/-- What can go wrong with a memory operation. -/
inductive MemoryError where
  /-- The address holds no word. -/
  | notFound (addr : Address)
  /-- A new word does not fit. -/
  | outOfMemory (addr : Address) (capacity : Nat)
  /-- A word without tokens cannot be stored. -/
  | emptyWord (addr : Address)
deriving DecidableEq

/-- The message for a memory error. -/
def MemoryError.message : MemoryError → String
  | .notFound addr => s!"no word stored at address {addr.text}"
  | .outOfMemory addr capacity =>
    s!"cannot store at {addr.text}: memory full ({capacity} slots)"
  | .emptyWord addr => s!"refusing to store an empty word at {addr.text}"

/-- The inspection text of a memory error. -/
def MemoryError.inspect : MemoryError → String
  | .notFound addr => Text.inspectTagged "NotFound" addr.inspect
  | .outOfMemory addr capacity =>
    Text.inspectRecord "OutOfMemory" [("addr", addr.inspect), ("capacity", toString capacity)]
  | .emptyWord addr => Text.inspectTagged "EmptyWord" addr.inspect

/-- A store of words. -/
structure Memory where
  /-- The stored words. -/
  cells : Cells
  /-- Where sequential placement goes on; none after the last address has been used. -/
  next : Option Address
  /-- The number of words that fit; none is unlimited. -/
  capacity : Option UInt64

namespace Memory

/-- An empty memory. -/
def empty (capacity : Option UInt64) : Memory :=
  ⟨Cells.empty, some Address.first, capacity⟩

/-- The number of stored words. -/
def size (m : Memory) : Nat :=
  m.cells.size

/-- Whether a memory holds no words. -/
def isEmpty (m : Memory) : Bool :=
  m.cells.entries.isEmpty

/-- Whether a memory has no room for a word at an address that holds none yet. -/
def isFullFor (m : Memory) (addr : Address) : Option UInt64 :=
  if m.cells.contains addr then none
  else m.capacity.filter fun limit => limit.toNat ≤ m.size

/-- Where sequential placement goes on after an address has been used. -/
def nextAfter (next : Option Address) (addr : Address) : Option Address :=
  match next with
  | none => none
  | some n => if addr < n then some n else addr.next?

/-- Stores a word at an address, in place of any other word there. -/
def insertAt (m : Memory) (addr : Address) (w : Word) : Memory × Except MemoryError Unit :=
  if w.isEmpty then (m, .error (.emptyWord addr))
  else match m.isFullFor addr with
    | some limit => (m, .error (.outOfMemory addr limit.toNat))
    | none =>
      let m := { m with cells := m.cells.insert addr w }
      let m := { m with next := nextAfter m.next addr }
      (m, .ok ())

/-- Stores a word at the next sequential address, and yields that address. -/
def insert (m : Memory) (w : Word) : Memory × Except MemoryError Address :=
  match m.next with
  | none => (m, .error (.outOfMemory Address.last m.size))
  | some addr =>
    let (m, result) := m.insertAt addr w
    (m, result.map fun _ => addr)

/-- The word at an address. -/
def get (m : Memory) (addr : Address) : Except MemoryError Word :=
  match m.cells.get? addr with
  | some w => .ok w
  | none => .error (.notFound addr)

/-- Removes the word at an address, and yields it. The cells are written in any case; the result
    says whether there was a word. -/
def delete (m : Memory) (addr : Address) : Memory × Except MemoryError Word :=
  let removed := m.get addr
  let m := { m with cells := m.cells.erase addr }
  (m, removed)

/-- Whether an address holds a word. -/
def contains (m : Memory) (addr : Address) : Bool :=
  m.cells.contains addr

/-- Removes every word and starts sequential placement anew. -/
def clear (m : Memory) : Memory :=
  empty m.capacity

/-- The stored words in the order of their addresses. -/
def entries (m : Memory) : List (Address × Word) :=
  m.cells.entries

/-- The first `count` stored words from an address on. -/
def dump (m : Memory) (start : Address) (count : Nat) : List (Address × Word) :=
  (m.cells.entriesFrom start).take count

/-- The inspection text of a memory. -/
def inspect (m : Memory) : String :=
  Text.inspectRecord "Memory"
    [("used_slots", toString m.size),
     ("next_slot", Text.inspectOption (m.next.map fun a => toString a.slot)),
     ("max_slots", Text.inspectOption (m.capacity.map toString))]

end Memory

end BitMachine
