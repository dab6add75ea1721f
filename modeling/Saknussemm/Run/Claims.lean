import Saknussemm.Run.Frame

/-! # The joins a chunk owns.

Reporting a missing partner does not change which joins are claimed: a
chunk that gets through claiming owns, for each of its lines, the join it
opens on the page and the one it closes from another page. -/

namespace Saknussemm

open Effects

/-! ## What a line owns -/

/-- A join a page's chunk may own: opened by one of the page's lines onto
another, or closed by one of them from another page. -/
structure Claimed (workspace : PageWorkspace) (heap : Heap) (join : Join) : Prop where
  isForward : join.isForward = ((heap join.tail).hyphenRole = .both : Bool)
  owned :
    (join.tail ∈ workspace.refs ∧ ∃ ref, forwardPartnerRef (heap join.tail) = some ref ∧
      ref.pageId = (heap join.tail).pageId ∧ workspace.lineById ref.lineId = some join.head) ∨
    (join.head ∈ workspace.refs ∧ backwardPartnerRef (heap join.head) = some join.tail ∧
      join.tail.pageId ≠ (heap join.head).pageId ∧ join.tail ∈ workspace.crossPagePartners)

theorem Claimed.congr {workspace : PageWorkspace} {h h' : Heap} {join : Join}
    (hs : SameSkeleton h h') (hc : Claimed workspace h join) : Claimed workspace h' join where
  isForward := by rw [hs.role]; exact hc.isForward
  owned := by
    rw [hs.forward, hs.backward, hs.sameSource.pageId, hs.sameSource.pageId]
    exact hc.owned

/-- The join a line opens onto a line of its page. -/
def outgoingJoin (workspace : PageWorkspace) (heap : Heap) (line : LineRef) : Option Join :=
  ((forwardPartnerRef (heap line)).filter (·.pageId = (heap line).pageId)).bind fun ref =>
    (lookupRef workspace (heap line).pageId ref).map fun head =>
      ⟨line, head, (heap line).hyphenRole = .both⟩

/-- The join a line closes from another page. -/
def incomingJoin (workspace : PageWorkspace) (heap : Heap) (line : LineRef) : Option Join :=
  ((backwardPartnerRef (heap line)).filter (·.pageId ≠ (heap line).pageId)).bind fun ref =>
    (lookupRef workspace (heap line).pageId ref).map fun tail =>
      ⟨tail, line, (heap tail).hyphenRole = .both⟩

/-- The joins a chunk owns through one of its lines. -/
def ownedJoins (workspace : PageWorkspace) (heap : Heap) (line : LineRef) : List Join :=
  (outgoingJoin workspace heap line).toList ++ (incomingJoin workspace heap line).toList

/-- Claim a join that is already worked out. -/
def Claims.add (claims : Claims) (join : Join) : Claims where
  joins := Dict.set claims.joins join.tail join
  pool := addToPool (addToPool claims.pool join.tail) join.head

/-- What a chunk claims. -/
def claimsOf (workspace : PageWorkspace) (heap : Heap) (lines : List LineRef) : Claims :=
  (lines.flatMap (ownedJoins workspace heap)).foldl Claims.add ⟨[], lines.foldl addToPool []⟩

variable {pipeline : CorrectionPipeline} {workspace : PageWorkspace} {h : Heap}

/-! ## Claiming -/

/-- Telling an event leaves the heap alone. -/
theorem yields_emit (event : EngineEvent) :
    Yields (fun s => s.heap = h) (emit pipeline event) fun _ s => s.heap = h := by
  apply ends_get_bind
  intro s
  have hadd : Yields (fun s' => s' = s ∧ s.heap = h)
      (modify fun s => { s with events := s.events ++ [event] } : RunM PUnit)
      fun _ s' => s'.heap = h := by
    apply ends_modify
    rintro s' ⟨rfl, hheap⟩
    exact hheap
  refine hadd.bind fun _ => ?_
  split
  · exact ends_throw fun _ _ => trivial
  · exact ends_pure fun _ hs => hs

theorem yields_resolvePartner (lm : LineManifest) (ref : LineRef) (direction : LinkDirection) :
    Yields (fun s => s.heap = h) (resolvePartner pipeline workspace lm ref direction)
      fun partner s => s.heap = h ∧ partner = lookupRef workspace lm.pageId ref := by
  unfold resolvePartner
  cases hlookup : lookupRef workspace lm.pageId ref with
  | some partner => exact ends_pure fun _ hs => ⟨hs, rfl⟩
  | none =>
    refine (yields_emit _).bind fun _ => ?_
    exact ends_pure fun _ hs => ⟨hs, rfl⟩

/-- A line claims the join it opens. -/
theorem yields_claimOutgoing (line : LineRef) (claims : Claims) :
    Yields (fun s => s.heap = h) (claimOutgoing pipeline workspace h line claims)
      fun claims' s => s.heap = h ∧
        claims' = ((outgoingJoin workspace h line).toList).foldl Claims.add claims := by
  unfold claimOutgoing outgoingJoin
  simp only
  cases (forwardPartnerRef (h line)).filter (·.pageId = (h line).pageId) with
  | none => exact ends_pure fun _ hs => ⟨hs, rfl⟩
  | some ref =>
    refine (yields_resolvePartner _ _ _).bind fun head => ?_
    cases head with
    | none =>
      apply ends_pure
      rintro s ⟨hs, hlookup⟩
      simp [hs, ← hlookup]
    | some head =>
      apply ends_pure
      rintro s ⟨hs, hlookup⟩
      simp [hs, ← hlookup, Claims.claim, Claims.add]

/-- A line claims the join it closes. -/
theorem yields_claimIncoming (line : LineRef) (claims : Claims) :
    Yields (fun s => s.heap = h) (claimIncoming pipeline workspace h line claims)
      fun claims' s => s.heap = h ∧
        claims' = ((incomingJoin workspace h line).toList).foldl Claims.add claims := by
  unfold claimIncoming incomingJoin
  simp only
  cases (backwardPartnerRef (h line)).filter (·.pageId ≠ (h line).pageId) with
  | none => exact ends_pure fun _ hs => ⟨hs, rfl⟩
  | some ref =>
    refine (yields_resolvePartner _ _ _).bind fun tail => ?_
    cases tail with
    | none =>
      apply ends_pure
      rintro s ⟨hs, hlookup⟩
      simp [hs, ← hlookup]
    | some tail =>
      apply ends_pure
      rintro s ⟨hs, hlookup⟩
      simp [hs, ← hlookup, Claims.claim, Claims.add]

/-- **A chunk that gets through claiming owns what its lines own.** -/
theorem yields_claimJoins (lines : List LineRef) :
    Yields (fun s => s.heap = h) (claimJoins pipeline workspace lines)
      fun claims s => s.heap = h ∧ claims = claimsOf workspace h lines := by
  apply ends_get_bind
  intro s
  apply ends_of_fact
  rintro rfl
  let start : Claims := ⟨[], lines.foldl addToPool []⟩
  let inv : List LineRef → Claims → RunState → Prop := fun done claims s' =>
    s'.heap = s.heap ∧ claims = (done.flatMap (ownedJoins workspace s.heap)).foldl Claims.add start
  have hstep : ∀ done line claims, Yields (inv done claims)
      (do
        let claims ← claimOutgoing pipeline workspace s.heap line claims
        claimIncoming pipeline workspace s.heap line claims)
      (inv (done ++ [line])) := by
    intro done line claims
    apply ends_of_fact
    rintro rfl
    refine (yields_claimOutgoing line _).bind fun claims' => ?_
    apply ends_of_fact
    rintro rfl
    refine (yields_claimIncoming line _).mono (fun _ hs => hs) ?_ fun _ _ _ => trivial
    rintro claims'' s' ⟨hheap, rfl⟩
    refine ⟨hheap, ?_⟩
    simp [ownedJoins, List.foldl_append]
  have hfold := ends_foldlM hstep lines [] start
  refine hfold.mono ?_ (fun _ _ hinv => ?_) fun _ _ _ => trivial
  · rintro s' rfl
    exact ⟨rfl, rfl⟩
  · simpa [inv, claimsOf, start] using hinv

/-! ## What is claimed -/

theorem joins_foldl_add (joins : List Join) (claims : Claims) :
    (joins.foldl Claims.add claims).joins =
      joins.foldl (fun d join => Dict.set d join.tail join) claims.joins := by
  induction joins generalizing claims with
  | nil => rfl
  | cons join joins ih => exact ih _

theorem mem_of_lineById {lineId : Str} {ref : LineRef}
    (hid : workspace.lineById lineId = some ref) : ref ∈ workspace.refs :=
  List.mem_of_find?_eq_some hid

theorem claimed_outgoing {line : LineRef} {join : Join} (hline : line ∈ workspace.refs)
    (hjoin : outgoingJoin workspace h line = some join) : Claimed workspace h join := by
  simp only [outgoingJoin, Option.bind_eq_some_iff, Option.filter_eq_some_iff,
    Option.map_eq_some_iff, decide_eq_true_eq] at hjoin
  obtain ⟨ref, ⟨hforward, hpage⟩, head, hlookup, rfl⟩ := hjoin
  rw [lookupRef, if_pos hpage] at hlookup
  exact ⟨rfl, .inl ⟨hline, ref, hforward, hpage, hlookup⟩⟩

theorem claimed_incoming {line : LineRef} {join : Join} (hline : line ∈ workspace.refs)
    (hjoin : incomingJoin workspace h line = some join) : Claimed workspace h join := by
  simp only [incomingJoin, Option.bind_eq_some_iff, Option.filter_eq_some_iff,
    Option.map_eq_some_iff, decide_eq_true_eq] at hjoin
  obtain ⟨ref, ⟨hbackward, hpage⟩, tail, hlookup, rfl⟩ := hjoin
  rw [lookupRef, if_neg hpage] at hlookup
  split at hlookup
  case isTrue hpartner =>
    cases hlookup
    exact ⟨rfl, .inr ⟨hline, hbackward, hpage, hpartner⟩⟩
  case isFalse => cases hlookup

theorem claimed_of_mem_ownedJoins {line : LineRef} {join : Join} (hline : line ∈ workspace.refs)
    (hjoin : join ∈ ownedJoins workspace h line) : Claimed workspace h join := by
  rcases List.mem_append.mp hjoin with hout | hin
  · exact claimed_outgoing hline (Option.mem_toList.mp hout)
  · exact claimed_incoming hline (Option.mem_toList.mp hin)

/-- The joins of a chunk, looked up by their tails, are ones it may own. -/
theorem claimed_of_get? {lines : List LineRef} {tail : LineRef} {join : Join}
    (hlines : ∀ line ∈ lines, line ∈ workspace.refs)
    (hjoin : (claimsOf workspace h lines).joins.get? tail = some join) :
    Claimed workspace h join ∧ join.tail = tail := by
  rw [claimsOf, joins_foldl_add] at hjoin
  rcases Dict.mem_of_get?_foldl_set Join.tail id _ _ hjoin with hnone | ⟨j, hj, htail, rfl⟩
  · cases hnone
  · obtain ⟨line, hline, howned⟩ := List.mem_flatMap.mp hj
    exact ⟨claimed_of_mem_ownedJoins (hlines line hline) howned, htail⟩

end Saknussemm
