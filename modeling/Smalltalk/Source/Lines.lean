/-
**Lines and columns of a source text.**

A line index records where each line of a source starts, so that byte offsets can be turned into
lines and columns and back. Lines and columns are counted from one, and columns count bytes.

* `Location` — a line and a column;
* `Lines`, `Lines.ofSource` — the starts of the lines of a source;
* `Lines.lineOf` — the line an offset is on, by binary search;
* `Lines.location`, `Lines.offset?` — **from offsets to locations and back**;
* `Lines.lineSpan` — the bytes of a whole line, its newline included.
-/

import Smalltalk.Source.Span

namespace Smalltalk

structure Location where
  line : Nat
  /-- One more than the number of bytes between the start of the line and the place. -/
  column : Nat
deriving DecidableEq, Repr

/-- The least number in `[lo, hi]` at which `p` fails, for a `p` that never holds again once it
has failed; `hi` if it holds throughout. -/
def partitionPoint (p : Nat → Bool) (lo hi : Nat) : Nat :=
  if lo < hi then
    let middle := (lo + hi) / 2
    if p middle then partitionPoint p (middle + 1) hi else partitionPoint p lo middle
  else lo
termination_by hi - lo

structure Lines where
  /-- The offset of the first byte of each line, in order. -/
  starts : Array Nat
  length : Nat
deriving Repr

namespace Lines

/-- The line starts after a text that begins at `offset`, added to those found so far. -/
def startsFrom (offset : Nat) (found : Array Nat) : List Char → Array Nat
  | [] => found
  | c :: cs =>
    let next := offset + c.utf8Size
    startsFrom next (if c = '\n' then found.push next else found) cs

/-- A line starts at the beginning of the source and after every newline. -/
def ofSource (source : String) : Lines :=
  ⟨startsFrom 0 #[0] source.toList, source.utf8ByteSize⟩

/-- The line an offset is on: how many lines start at or before it. -/
def lineOf (lines : Lines) (offset : Nat) : Nat :=
  partitionPoint (fun i => lines.starts.getD i 0 ≤ offset) 0 lines.starts.size

def first (lines : Lines) (span : Span) : Nat := lines.lineOf span.start

def last (lines : Lines) (span : Span) : Nat := lines.lineOf span.stop

def location (lines : Lines) (offset : Nat) : Location :=
  let line := lines.lineOf offset
  ⟨line, offset - lines.starts.getD (line - 1) 0 + 1⟩

/-- The offset of a line and column, if there is such a line and the offset is not past the end of
the source. -/
def offset? (lines : Lines) : Location → Option Nat
  | ⟨line + 1, column + 1⟩ =>
    lines.starts[line]?.bind fun start =>
      if start + column ≤ lines.length then some (start + column) else none
  | _ => none

/-- The span of a whole line. A line that does not exist is empty, at the end of the source. -/
def lineSpan (lines : Lines) (line : Nat) : Span :=
  let start :=
    match line with
    | 0 => lines.length
    | index + 1 => lines.starts.getD index lines.length
  ⟨start, lines.starts.getD line lines.length⟩

end Lines

end Smalltalk
