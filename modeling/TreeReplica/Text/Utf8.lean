/-
Reading UTF-8. A character takes one to four bytes, and its first byte
says which bytes may come after it. `decode` reads a whole text, or says
where the first malformed character starts, how many of its bytes were
still well formed, and why it ends there.

A text read from a file has one kind of line end: `unifyLineEnds` makes a
carriage return, alone or before a line feed, a line feed.
-/
namespace TreeReplica.Text

-- ============================================================== errors

/-- What is wrong with a malformed character. -/
inductive Utf8Cause
  | start
  | continuation
  | truncated
  deriving DecidableEq, Repr, Inhabited

/-- The wording of a cause. -/
def Utf8Cause.text : Utf8Cause → String
  | .start => "invalid start byte"
  | .continuation => "invalid continuation byte"
  | .truncated => "unexpected end of data"

/-- A malformed character: its first byte, where it starts and how many
bytes of it are well formed. -/
structure Utf8Error where
  cause : Utf8Cause
  byte : UInt8
  position : Nat
  length : Nat
  deriving DecidableEq, Repr, Inhabited

-- ============================================================ decoding

/-- The ranges of the bytes after a first byte, or `none` if no character
starts with it. The second byte of some characters is restricted, so that
no character has a longer form than it needs and none is a surrogate. -/
def followers (first : Nat) : Option (List (Nat × Nat)) :=
  if first < 0x80 then some []
  else if first < 0xc2 then none
  else if first < 0xe0 then some [(0x80, 0xbf)]
  else if first < 0xf0 then
    some [(if first = 0xe0 then 0xa0 else 0x80,
      if first = 0xed then 0x9f else 0xbf), (0x80, 0xbf)]
  else if first < 0xf5 then
    some [(if first = 0xf0 then 0x90 else 0x80,
      if first = 0xf4 then 0x8f else 0xbf), (0x80, 0xbf), (0x80, 0xbf)]
  else none

/-- How many of the bytes lie in the ranges before one does not. -/
def fitting : List (Nat × Nat) → List UInt8 → Nat
  | (low, high) :: ranges, b :: bytes =>
      if low ≤ b.toNat && b.toNat ≤ high then fitting ranges bytes + 1 else 0
  | _, _ => 0

/-- The character made of a first byte and the bytes after it. -/
def charOf (first : Nat) (after : List UInt8) : Char :=
  let head :=
    if after.isEmpty then first else first % Nat.pow 2 (6 - after.length)
  Char.ofNat (after.foldl (fun n b => n * 64 + b.toNat % 64) head)

/-- Decode from `position` on. -/
def decodeFrom (position : Nat) (bytes : List UInt8) :
    Except Utf8Error (List Char) :=
  match bytes with
  | [] => .ok []
  | b :: rest =>
      match followers b.toNat with
      | none => .error ⟨.start, b, position, 1⟩
      | some ranges =>
          let n := fitting ranges rest
          if n < ranges.length then
            let cause :=
              if n = rest.length then .truncated else .continuation
            .error ⟨cause, b, position, n + 1⟩
          else
            (decodeFrom (position + n + 1) (rest.drop n)).map
              (charOf b.toNat (rest.take n) :: ·)
termination_by bytes.length
decreasing_by simp only [List.length_drop, List.length_cons]; omega

/-- Decode a text. -/
def decode (bytes : List UInt8) : Except Utf8Error (List Char) :=
  decodeFrom 0 bytes

-- =========================================================== line ends

/-- Make every line end a line feed. -/
def unifyLineEnds : List Char → List Char
  | '\r' :: '\n' :: rest => '\n' :: unifyLineEnds rest
  | '\r' :: rest => '\n' :: unifyLineEnds rest
  | c :: rest => c :: unifyLineEnds rest
  | [] => []

end TreeReplica.Text
