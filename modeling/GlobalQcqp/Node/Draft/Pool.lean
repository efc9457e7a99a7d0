import GlobalQcqp.Node.Draft
import GlobalQcqp.Node.HeapPool
/-!
# Pools of drafts

The pool of open nodes as a heap of drafts.  Two drafts need not compare, and an undefined priority
compares with none, so the order in which drafts leave the pool may depend on how they are kept.
-/

namespace GlobalQcqp

def NodeDraft.ranking : Ranking NodeDraft Misfit where
  isBefore := isBefore
  isDeeper := isDeeper

abbrev DraftPool :=
  HeapPool NodeDraft

namespace DraftPool

def empty (selection : NodeSelection) (interval : Int) : DraftPool :=
  HeapPool.empty selection interval

def push (p : DraftPool) (d : NodeDraft) : Except Misfit Unit × DraftPool :=
  HeapPool.push NodeDraft.ranking p d

def pop (p : DraftPool) : Except Misfit (Option NodeDraft) × DraftPool :=
  HeapPool.pop NodeDraft.ranking p

/-- Drops the drafts whose priority is not below the threshold, and counts them. -/
def prune (p : DraftPool) (threshold : Setting) : Except Misfit Nat × DraftPool :=
  HeapPool.prune NodeDraft.ranking (·.priority.isLess threshold) p

def ordered (p : DraftPool) : Except Misfit (List NodeDraft) :=
  HeapPool.ordered NodeDraft.ranking p

def minBound (p : DraftPool) : Setting :=
  p.heap[0]?.elim (.real posInf) (·.priority)

end DraftPool

end GlobalQcqp
