/-
**Ranges of bytes in a source text.**

Every position in this library is a byte offset into the UTF-8 form of a source text. A span is
a half-open range of such offsets. Spans of a construct are computed by merging the spans of its
parts, where the span `[0, 0]` stands for a part that is missing.

* `Span`, `Span.point` — a range of bytes, and the empty range at an offset;
* `Span.merge` — **the smallest span covering two**, the missing span being neutral;
* `Span.text` — the text a span covers, empty if the span does not fit the text.
-/

namespace Smalltalk

/-! ### Spans -/

structure Span where
  start : Nat
  stop : Nat
deriving DecidableEq, Repr

namespace Span

/-- The span `[0, 0]`, which stands for a missing part. -/
def missing : Span := ⟨0, 0⟩

instance : Inhabited Span := ⟨missing⟩

def point (offset : Nat) : Span := ⟨offset, offset⟩

/-- **The smallest span covering both**, where a missing span counts for nothing. -/
def merge (a b : Span) : Span :=
  if a = missing then b
  else if b = missing then a
  else ⟨min a.start b.start, max a.stop b.stop⟩

@[simp] theorem missing_merge (a : Span) : missing.merge a = a := by simp [merge]

@[simp] theorem merge_missing (a : Span) : a.merge missing = a := by
  by_cases h : a = missing <;> simp [merge, h]

end Span

/-- The text covered by a span, cut off at the end of the source. It is empty if the span starts
outside of the source, ends before it starts, or cuts a character. -/
def Span.text (span : Span) (source : String) : String :=
  let start : String.Pos.Raw := ⟨span.start⟩
  let stop : String.Pos.Raw := ⟨min span.stop source.utf8ByteSize⟩
  if span.start ≤ stop.byteIdx && start.isValid source && stop.isValid source then
    start.extract source stop
  else ""

end Smalltalk
