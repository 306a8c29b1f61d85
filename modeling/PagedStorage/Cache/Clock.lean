import PagedStorage.Cache.FrameTable

namespace PagedStorage

namespace Clock

structure Candidate where
  page : PageId
  /-- Registered since the hand last passed. -/
  marked : Bool
deriving DecidableEq, Repr

end Clock

/-- Second-chance eviction. The candidates are on a ring, which is cut open here at the hand; a
registration marks a candidate, and the hand takes the mark away before it names the candidate. -/
structure Clock where
  /-- From the candidate under the hand to the one that was registered last. -/
  ahead : List Clock.Candidate
  /-- From the one that was registered first to the one the hand passed last. -/
  behind : List Clock.Candidate
deriving DecidableEq, Repr

namespace Clock

def empty : Clock := ⟨[], []⟩

def candidates (clock : Clock) : List Candidate := clock.behind ++ clock.ahead

def hand (clock : Clock) : Nat := clock.behind.length

def sweepOrder (clock : Clock) : List Candidate := clock.ahead ++ clock.behind

/-- The ring with these parts. A hand past the last candidate goes back to the first. -/
def ofParts (ahead behind : List Candidate) : Clock :=
  if ahead = [] then ⟨behind, []⟩ else ⟨ahead, behind⟩

def Candidate.mark (page : PageId) (candidate : Candidate) : Candidate :=
  if candidate.page = page then { candidate with marked := true } else candidate

def register (clock : Clock) (page : PageId) : Clock :=
  if ∃ candidate ∈ clock.candidates, candidate.page = page then
    ⟨clock.ahead.map (Candidate.mark page), clock.behind.map (Candidate.mark page)⟩
  else { clock with ahead := clock.ahead ++ [⟨page, true⟩] }

/-- Takes a page off the ring. The hand stays before the same successor. -/
def withdraw (clock : Clock) (page : PageId) : Clock :=
  let others := fun candidate : Candidate => decide (candidate.page ≠ page)
  ofParts (clock.ahead.filter others) (clock.behind.filter others)

def remaining (candidates : List Candidate) : Nat :=
  candidates.length + candidates.countP Candidate.marked

theorem remaining_cons (candidate : Candidate) (candidates : List Candidate) :
    remaining (candidate :: candidates) =
      remaining candidates + if candidate.marked then 2 else 1 := by
  simp only [remaining, List.length_cons, List.countP_cons]
  split <;> omega

/-- Moves the hand to the next victim, which stays on the ring. A candidate that loses its mark also
loses one from its usage count. -/
def sweep (ahead behind : List Candidate) (table : FrameTable) :
    Option PageId × Clock × FrameTable :=
  match ahead with
  | candidate :: ahead =>
    match table.find? candidate.page with
    | none => sweep ahead behind table
    | some frame =>
      if frame.IsPinned then sweep ahead behind table
      else if candidate.marked then
        sweep ahead (behind ++ [{ candidate with marked := false }]) (table.put frame.aged)
      else (some candidate.page, ⟨candidate :: ahead, behind⟩, table)
  | [] =>
    match behind with
    | [] => (none, empty, table)
    | candidate :: behind => sweep (candidate :: behind) [] table
termination_by (remaining (ahead ++ behind), behind.length)
decreasing_by
  · apply Prod.Lex.left
    simp only [List.cons_append, remaining_cons]
    split <;> omega
  · apply Prod.Lex.left
    simp only [List.cons_append, remaining_cons]
    split <;> omega
  · rename_i hmarked
    apply Prod.Lex.left
    simp [remaining, hmarked]
    omega
  · simp only [List.append_nil, List.nil_append]
    exact Prod.Lex.right _ (Nat.succ_pos _)

def victim (clock : Clock) (table : FrameTable) : Option PageId × Clock × FrameTable :=
  sweep clock.ahead clock.behind table

end Clock

end PagedStorage
