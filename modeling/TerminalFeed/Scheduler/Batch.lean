import TerminalFeed.Frame

/-!
Batches of tokens. A batch keeps its place, so that it can be left between two
tokens and taken up again.
-/

namespace TerminalFeed

inductive Token (τ : Type) where
  | frame (f : Frame)
  | terminal (t : τ)

structure Batch (α : Type) where
  cursor : Nat
  rest : List α
  byteLength : Nat

namespace Batch

variable {α : Type}

def ofTokens (tokens : List α) (byteLength : Nat) : Batch α := ⟨0, tokens, byteLength⟩

def length (b : Batch α) : Nat := b.cursor + b.rest.length

def isEmpty (b : Batch α) : Bool := b.length == 0

def remaining (b : Batch α) : Nat := b.rest.length

def isFinished (b : Batch α) : Bool := b.rest.isEmpty

def current? (b : Batch α) : Option α := b.rest.head?

def advance (b : Batch α) : Batch α :=
  match b.rest with
  | [] => b
  | _ :: rest => { b with cursor := b.cursor + 1, rest := rest }

def advance? (b : Batch α) : Option (Batch α) :=
  if b.isFinished then none else some b.advance

def overrun (b : Batch α) : String :=
  "token batch cursor advanced past end (" ++ toString b.cursor ++ " of "
    ++ toString b.length ++ ")"

def describe (b : Batch α) : String :=
  "TokenBatch \x7b tokens: " ++ toString b.length ++ ", cursor: " ++ toString b.cursor
    ++ ", byte_len: " ++ toString b.byteLength ++ " \x7d"

@[simp] theorem length_ofTokens (tokens : List α) (n : Nat) :
    (ofTokens tokens n).length = tokens.length := by
  simp [ofTokens, length]

@[simp] theorem rest_advance (b : Batch α) : b.advance.rest = b.rest.tail := by
  unfold advance
  split <;> simp_all

@[simp] theorem byteLength_advance (b : Batch α) : b.advance.byteLength = b.byteLength := by
  unfold advance
  split <;> rfl

end Batch

end TerminalFeed
