/-!
# Spans

A span marks a stretch of the source by byte offsets.  Tokens carry the span of their own text, tree
nodes the span from their first to their last token, and diagnostics the span they complain about.

* `Span` — start and end, the end exclusive;
* `Span.merge` — the least span that covers both of two spans.
-/

namespace ThreeAddress

/-- A stretch of the source in byte offsets: from `start` up to, not including, `stop`. -/
structure Span where
  start : Nat
  stop : Nat
deriving DecidableEq, Inhabited

namespace Span

/-- The span of nothing at the very beginning. -/
def origin : Span := ⟨0, 0⟩

/-- The least span that reaches from the earlier start to the later end. -/
def merge (a b : Span) : Span := ⟨min a.start b.start, max a.stop b.stop⟩

/-- The number of bytes marked. -/
def length (a : Span) : Nat := a.stop - a.start

/-- A span is empty when it ends where it starts. -/
def isEmpty (a : Span) : Bool := a.length == 0

theorem merge_start (a b : Span) : (a.merge b).start = min a.start b.start := rfl

theorem merge_stop (a b : Span) : (a.merge b).stop = max a.stop b.stop := rfl

end Span

end ThreeAddress
