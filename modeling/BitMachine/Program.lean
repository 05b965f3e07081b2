import BitMachine.Memory.Basic

/-!
# Programs

A program is a list of words with the addresses that they are placed at, in the order in which
they were written down. Nothing keeps an address from occurring twice; the assembler and the
image reader do.
-/

namespace BitMachine

/-- Words with their addresses. -/
structure Program where
  /-- The addresses and words in order. -/
  words : List (Address × Word) := []
deriving DecidableEq

namespace Program

/-- Words at consecutive addresses from the given one on. -/
def placeFrom (addr : Address) : List Word → List (Address × Word)
  | [] => []
  | w :: ws => (addr, w) :: placeFrom ⟨addr.slot + 1⟩ ws

/-- Words at consecutive addresses from the first one on. -/
def ofWords (ws : List Word) : Program :=
  ⟨placeFrom Address.first ws⟩

/-- Adds a word at the end. -/
def push (p : Program) (addr : Address) (w : Word) : Program :=
  ⟨p.words ++ [(addr, w)]⟩

/-- The first word that is placed at an address. -/
def get? (p : Program) (addr : Address) : Option Word :=
  p.words.lookup addr

/-- The number of words. -/
def size (p : Program) : Nat :=
  p.words.length

/-- Whether a program has no words. -/
def isEmpty (p : Program) : Bool :=
  p.words.isEmpty

end Program

/-- Stores words one after the other. The first failure ends the loading and is reported; the
    words before it stay. -/
def Memory.load (m : Memory) : List (Address × Word) → Memory × Except MemoryError Unit
  | [] => (m, .ok ())
  | (addr, w) :: rest =>
    match m.insertAt addr w with
    | (m, .ok ()) => m.load rest
    | (m, .error e) => (m, .error e)

/-- Stores words at sequential addresses, and yields these. The first failure ends the loading
    and is reported; the words before it stay. -/
def Memory.loadSequentially (m : Memory) :
    List Word → Memory × Except MemoryError (List Address)
  | [] => (m, .ok [])
  | w :: rest =>
    match m.insert w with
    | (m, .ok addr) =>
      let (m, result) := m.loadSequentially rest
      (m, result.map (addr :: ·))
    | (m, .error e) => (m, .error e)

end BitMachine
