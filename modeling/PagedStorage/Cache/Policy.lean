import PagedStorage.Cache.Clock
import PagedStorage.Cache.Lru

namespace PagedStorage

inductive Policy
  | clock (state : Clock)
  | lru (state : Lru)
  /-- Keeps no candidates and never names a victim. -/
  | idle
  /-- Least recently used, but no page can be withdrawn. -/
  | retaining (state : Lru)

namespace Policy

def name : Policy → String
  | clock _ => "clock"
  | lru _ => "lru"
  | idle => "none"
  | retaining _ => "refuse"

def named? (name : String) : Option Policy :=
  [clock Clock.empty, lru Lru.empty, idle, retaining Lru.empty].find? fun policy =>
    policy.name = name

def candidates : Policy → List PageId
  | clock state => state.candidates.map Clock.Candidate.page
  | lru state | retaining state => state.pages
  | idle => []

def size (policy : Policy) : Nat := policy.candidates.length

/-- Makes the page of a frame a candidate, or refreshes it. A pinned frame is passed over. -/
def register (policy : Policy) (frame : Frame) : Policy :=
  if frame.IsPinned then policy
  else
    match policy with
    | clock state => clock (state.register frame.id)
    | lru state => lru (state.register frame.id)
    | idle => idle
    | retaining state => retaining (state.register frame.id)

def withdraw (policy : Policy) (page : PageId) : Except StorageError Policy :=
  match policy with
  | clock state => .ok (clock (state.withdraw page))
  | lru state => lru <$> state.withdraw page
  | idle => .ok idle
  | retaining _ => .error (.invalidArgument (.withdrawalRefused page))

/-- Names a victim, which stays a candidate. A sweeping policy may age frames on the way. -/
def victim (policy : Policy) (table : FrameTable) : Option PageId × Policy × FrameTable :=
  match policy with
  | clock state =>
    let (page, state, table) := state.victim table
    (page, clock state, table)
  | lru state =>
    let (page, state) := state.victim table
    (page, lru state, table)
  | idle => (none, idle, table)
  | retaining state =>
    let (page, state) := state.victim table
    (page, retaining state, table)

def pick (policy : Policy) (table : FrameTable) : Option PageId × Policy × FrameTable :=
  match policy.victim table with
  | (none, policy, table) => (none, policy, table)
  | (some page, policy, table) =>
    match policy.withdraw page with
    | .ok policy => (some page, policy, table)
    | .error _ => (none, policy, table)

end Policy

/-- The policies of a pool. The second is asked when the first names no victim. -/
structure Policies where
  first : Policy
  second : Option Policy

namespace Policies

def toList (policies : Policies) : List Policy := policies.first :: policies.second.toList

def ofList? : List Policy → Option Policies
  | [first] => some ⟨first, none⟩
  | [first, second] => some ⟨first, some second⟩
  | _ => none

def names (policies : Policies) : List String := policies.toList.map Policy.name

def register (policies : Policies) (frame : Frame) : Policies where
  first := policies.first.register frame
  second := policies.second.map (Policy.register · frame)

/-- Withdraws a page from each policy in turn. The first refusal ends it: what was withdrawn before
stays withdrawn. -/
def withdraw (policies : Policies) (page : PageId) : Except StorageError Unit × Policies :=
  match policies.first.withdraw page with
  | .error e => (.error e, policies)
  | .ok first =>
    match policies.second with
    | none => (.ok (), ⟨first, none⟩)
    | some second =>
      match second.withdraw page with
      | .error e => (.error e, ⟨first, some second⟩)
      | .ok second => (.ok (), ⟨first, some second⟩)

def victim (policies : Policies) (table : FrameTable) :
    Option PageId × Policies × FrameTable :=
  match policies.first.victim table with
  | (some page, first, table) => (some page, { policies with first }, table)
  | (none, first, table) =>
    match policies.second with
    | none => (none, ⟨first, none⟩, table)
    | some second =>
      let (page, second, table) := second.victim table
      (page, ⟨first, some second⟩, table)

end Policies

end PagedStorage
