import Saknussemm.Editing

/-! # Replaying a script on one page.

A published script covers several files, whose lines may share ids.  Its
operations and its preconditions are stamped with their pages, and replay
takes those of one page, or without a stamp, line by line. -/

namespace Saknussemm

section Lines

variable {canonicalById : Dict Str Str} {chunkLineIds : Option (List Str)} {lineId : Str}

/-- A line is edited when it is known and was asked for. -/
theorem e1Refusal_eq_none_iff : e1Refusal lineId canonicalById chunkLineIds = none ↔
    (∃ canonical, canonicalById.get? lineId = some canonical) ∧ ∀ ids ∈ chunkLineIds,
        lineId ∈ ids := by
  unfold e1Refusal
  cases hknown : canonicalById.get? lineId with
  | none => simp
  | some canonical => cases chunkLineIds <;> simp

/-- What each of some lines came to, read off for one of them. -/
theorem get?_filterMap_results (ids : List Str) (f : Str → Option Str × List EditRejection)
    (hmissing : lineId ∉ ids → (f lineId).1 = none) :
    Dict.get? ((ids.map fun id => (id, f id)).filterMap fun result => result.2.1.map (result.1, ·))
      lineId = (f lineId).1 := by
  have hread : ∀ ids : List Str, Dict.get? ((ids.map fun id => (id, f id)).filterMap
      fun result => result.2.1.map (result.1, ·)) lineId =
        if lineId ∈ ids then (f lineId).1 else none := by
    intro ids
    induction ids with
    | nil => rfl
    | cons id ids ih =>
      rw [List.map_cons, List.filterMap_cons]
      by_cases hid : id = lineId
      · subst hid
        cases hf : (f id).1 with
        | none =>
          simp only [hf, Option.map_none, ih]
          split <;> simp
        | some text => simp [Dict.get?_cons]
      · have hiff : lineId ∈ id :: ids ↔ lineId ∈ ids := by simp [Ne.symm hid]
        cases hf : (f id).1 with
        | none => simp only [Option.map_none, ih, hiff]
        | some text => simp only [Option.map_some, Dict.get?_cons, if_neg hid, ih, hiff]
  rw [hread]
  split
  · rfl
  · next hid => exact (hmissing hid).symm

/-- The text one line's operations give. -/
theorem applyLine_eq_some_iff [Digest] {guard : GuardConfig} {roleOf : Str → HyphenRole}
    {digests : Dict Str Str} {ops : List EditOp} {text : Str} :
    (applyLine canonicalById chunkLineIds guard roleOf digests lineId ops).1 = some text ↔
      (∀ ids ∈ chunkLineIds, lineId ∈ ids) ∧ ∃ canonical, canonicalById.get? lineId =
        some canonical ∧ (∀ digest ∈ digests.get? lineId, digest = Digest.lineDigest canonical) ∧
        (applyLineOps lineId ops canonical (roleOf lineId) guard).1 = some text := by
  unfold applyLine
  cases he1 : e1Refusal lineId canonicalById chunkLineIds with
  | some reason =>
    simp only [reduceCtorEq, false_iff]
    rintro ⟨htarget, canonical, hknown, -⟩
    rw [e1Refusal_eq_none_iff.mpr ⟨⟨canonical, hknown⟩, htarget⟩] at he1
    cases he1
  | none =>
    obtain ⟨⟨canonical, hknown⟩, htarget⟩ := e1Refusal_eq_none_iff.mp he1
    simp only [hknown, Option.getD_some, Option.some_inj, exists_eq_left', and_iff_right htarget]
    cases digests.get? lineId with
    | none => simp
    | some expected =>
      by_cases hmatch : Digest.lineDigest canonical = expected
      · simp [hmatch]
      · simp [hmatch, Ne.symm hmatch]

end Lines

/-- What a script is replayed on. -/
structure Replay where
  script : EditScript
  canonicalById : Dict Str Str
  chunkLineIds : Option (List Str)
  guard : GuardConfig
  roleOf : Str → HyphenRole
  pageId : Option Str

namespace Replay

variable [Digest] (replay : Replay)

/-- Apply the script. -/
def result : Except UnknownProtocol EditResult :=
  applyEditScript replay.script replay.canonicalById replay.chunkLineIds replay.guard replay.roleOf
    replay.pageId

/-- The operations in scope on a line, in their order. -/
def opsOn (lineId : Str) : List EditOp :=
  replay.script.ops.filter fun op => op.lineId = lineId && inScope replay.pageId op.pageId

/-- The digests in scope recorded for a line, in their order. -/
def digestsOn (lineId : Str) : List Str :=
  (replay.script.preconditions.filter fun pc =>
    pc.lineId = lineId && inScope replay.pageId pc.pageId).map LinePrecondition.digest

/-- Does the script speak this protocol? -/
def Speaks : Prop := ∀ version ∈ replay.script.protocolVersion, version = editProtocolVersion

/-- A line's operations give it this text: it is known and asked for, the
last digest recorded for it is its own, and the operations pass. -/
structure Gives (lineId text : Str) : Prop where
  target : ∀ ids ∈ replay.chunkLineIds, lineId ∈ ids
  accepted : ∃ canonical, replay.canonicalById.get? lineId = some canonical ∧
    (∀ digest ∈ (replay.digestsOn lineId).getLast?, digest = Digest.lineDigest canonical) ∧
    (applyLineOps lineId (replay.opsOn lineId) canonical (replay.roleOf lineId) replay.guard).1 =
      some text

variable {replay} {result : EditResult} {lineId text : Str}

omit [Digest] in
theorem speaks_iff : replay.Speaks ↔
    replay.script.protocolVersion.filter (· ≠ editProtocolVersion) = none := by
  unfold Speaks
  cases replay.script.protocolVersion <;> simp [Option.filter]

theorem speaks_of_result (h : replay.result = .ok result) : replay.Speaks := by
  rw [speaks_iff]
  unfold Replay.result applyEditScript at h
  split at h
  · cases h
  · assumption

/-- **What a line is given.** -/
theorem get?_textById (h : replay.result = .ok result) :
    result.textById.get? lineId = some text ↔ replay.Gives lineId text := by
  have hspeaks := speaks_iff.mp (speaks_of_result h)
  unfold Replay.result applyEditScript at h
  rw [hspeaks] at h
  cases h
  -- the line's own group of operations
  have hops : ∀ id, (replay.script.ops.filter fun op => inScope replay.pageId op.pageId).filter
      (·.lineId = id) = replay.opsOn id := by
    intro id
    rw [List.filter_filter]
    rfl
  have hdigest : (Dict.ofList ((replay.script.preconditions.filter fun pc =>
      inScope replay.pageId pc.pageId).map fun pc => (pc.lineId, pc.digest))).get? lineId =
        (replay.digestsOn lineId).getLast? := by
    rw [Dict.get?_ofList, List.filter_map, List.map_map, List.filter_filter]
    rfl
  simp only [opsByLine, List.map_map, Function.comp_def, hops]
  rw [get?_filterMap_results _ (fun id => applyLine replay.canonicalById replay.chunkLineIds
    replay.guard replay.roleOf _ id (replay.opsOn id)) ?_, applyLine_eq_some_iff, hdigest]
  · exact ⟨fun h => ⟨h.1, h.2⟩, fun h => ⟨h.target, h.accepted⟩⟩
  · intro hid
    have hempty : replay.opsOn lineId = [] := by
      rw [← hops, List.filter_eq_nil_iff]
      intro op hop hline
      apply hid
      rw [List.mem_eraseDups]
      exact List.mem_map.mpr ⟨op, hop, by simpa using hline⟩
    rw [hempty, Option.eq_none_iff_forall_ne_some]
    intro text htext
    obtain ⟨-, canonical, -, -, htext⟩ := applyLine_eq_some_iff.mp htext
    cases htext

/-! ## Scope and guard -/

variable (replay)

/-- The text a line is given, if any. -/
def textOf (lineId : Str) : Option Str := replay.result.toOption.bind (·.textById.get? lineId)

/-- Another script on the same page. -/
def withScript (script : EditScript) : Replay := { replay with script := script }

/-- Replay is scoped and guarded, line by line. -/
structure ScopedAndGuarded : Prop where
  /-- A line's text is decided by the operations and the digests in scope on
  the line, in their order. -/
  own : ∀ script lineId, (replay.withScript script).Speaks → replay.Speaks →
    (replay.withScript script).opsOn lineId = replay.opsOn lineId →
    (replay.withScript script).digestsOn lineId = replay.digestsOn lineId →
    (replay.withScript script).textOf lineId = replay.textOf lineId
  /-- Operations of different lines may stand in any order. -/
  reorder : ∀ ops, (∀ lineId, ops.filter (EditOp.lineId · = lineId) =
      replay.script.ops.filter (EditOp.lineId · = lineId)) →
    ∀ lineId, (replay.withScript { replay.script with ops := ops }).textOf lineId =
      replay.textOf lineId
  /-- An operation stamped for another page does nothing. -/
  elsewhere : ∀ before op after, replay.script.ops = before ++ op :: after →
    inScope replay.pageId op.pageId = false →
    (replay.withScript { replay.script with ops := before ++ after }).result = replay.result
  /-- A line is only changed when every digest in scope is its own. -/
  guarded : ∀ lineId text, replay.textOf lineId = some text →
    ∀ canonical ∈ replay.canonicalById.get? lineId, ∀ digest ∈ replay.digestsOn lineId,
      digest = Digest.lineDigest canonical

/-- No line that was asked for has operations that pass on their own, a last
digest that is its own and another that is not. -/
def LastDigestDecides : Prop :=
  replay.Speaks → ∀ lineId canonical, replay.canonicalById.get? lineId = some canonical →
    (∀ ids ∈ replay.chunkLineIds, lineId ∈ ids) →
    (applyLineOps lineId (replay.opsOn lineId) canonical (replay.roleOf lineId) replay.guard).1 ≠
      none →
    (replay.digestsOn lineId).getLast? = some (Digest.lineDigest canonical) →
    ∀ digest ∈ replay.digestsOn lineId, digest = Digest.lineDigest canonical

variable {replay}

/-- Every script of this protocol is applied. -/
theorem exists_result (h : replay.Speaks) : ∃ result, replay.result = .ok result := by
  unfold Replay.result applyEditScript
  rw [speaks_iff.mp h]
  exact ⟨_, rfl⟩

/-- The text of a line is the text the replay gives it. -/
theorem textOf_eq_some_iff : replay.textOf lineId = some text ↔
    replay.Speaks ∧ replay.Gives lineId text := by
  constructor
  · intro h
    obtain ⟨result, hresult, htext⟩ := Option.bind_eq_some_iff.mp h
    have hok : replay.result = .ok result := by
      cases hcases : replay.result with
      | error error =>
        rw [hcases] at hresult
        cases hresult
      | ok other =>
        rw [hcases] at hresult
        cases hresult
        rfl
    exact ⟨speaks_of_result hok, (get?_textById hok).mp htext⟩
  · rintro ⟨hspeaks, hgives⟩
    obtain ⟨result, hresult⟩ := exists_result hspeaks
    rw [textOf, hresult]
    exact (get?_textById hresult).mpr hgives

/-- Two scripts of this protocol with the same operations and digests in
scope on a line give it the same text. -/
theorem textOf_congr {script : EditScript} (hspeaks' : (replay.withScript script).Speaks)
    (hspeaks : replay.Speaks)
    (hops : (replay.withScript script).opsOn lineId = replay.opsOn lineId)
    (hdigests : (replay.withScript script).digestsOn lineId = replay.digestsOn lineId) :
    (replay.withScript script).textOf lineId = replay.textOf lineId := by
  apply Option.ext
  intro text
  rw [textOf_eq_some_iff, textOf_eq_some_iff, and_iff_right hspeaks', and_iff_right hspeaks]
  constructor
  · rintro ⟨htarget, hgives⟩
    rw [hops, hdigests] at hgives
    exact ⟨htarget, hgives⟩
  · rintro ⟨htarget, hgives⟩
    rw [← hops, ← hdigests] at hgives
    exact ⟨htarget, hgives⟩

variable (replay) in
/-- **Replay is scoped, and guarded exactly where the last digest recorded
for a line decides for all of them.** -/
theorem scopedAndGuarded_iff : replay.ScopedAndGuarded ↔ replay.LastDigestDecides := by
  constructor
  -- every accepted text is given, so the guard speaks about it
  · intro h hspeaks lineId canonical hknown htarget haccepted hlast
    obtain ⟨text, htext⟩ := Option.ne_none_iff_exists'.mp haccepted
    have hgives : replay.Gives lineId text :=
      ⟨htarget, canonical, hknown, by simp [hlast], htext⟩
    exact h.guarded lineId text (textOf_eq_some_iff.mpr ⟨hspeaks, hgives⟩) canonical hknown
  · intro h
    -- scope and order never needed the condition; only the guarded case does
    constructor
    case own => exact fun script lineId => textOf_congr
    case reorder =>
      intro ops hsame lineId
      have hops : (replay.withScript { replay.script with ops := ops }).opsOn lineId =
          replay.opsOn lineId := by
        have := congrArg (List.filter fun op => inScope replay.pageId op.pageId) (hsame lineId)
        rw [List.filter_filter, List.filter_filter] at this
        simp only [opsOn, withScript, Bool.and_comm] at this ⊢
        exact this
      by_cases hspeaks : replay.Speaks
      · exact textOf_congr hspeaks hspeaks hops rfl
      · apply Option.ext
        intro text
        rw [textOf_eq_some_iff, textOf_eq_some_iff]
        exact ⟨fun h => absurd h.1 hspeaks, fun h => absurd h.1 hspeaks⟩
    case elsewhere =>
      intro before op after hscript hscope
      have hops : (before ++ after).filter (fun op => inScope replay.pageId op.pageId) =
          replay.script.ops.filter fun op => inScope replay.pageId op.pageId := by
        rw [hscript, List.filter_append, List.filter_append, List.filter_cons, hscope]
        rfl
      unfold Replay.result applyEditScript
      simp only [withScript, hops]
    case guarded =>
      intro lineId text htext canonical hknown digest hdigest
      obtain ⟨hspeaks, htarget, canonical', hknown', hlast, haccepted⟩ :=
        textOf_eq_some_iff.mp htext
      obtain rfl : canonical' = canonical := by
        rw [hknown', Option.mem_def, Option.some_inj] at hknown
        exact hknown
      have hne : replay.digestsOn lineId ≠ [] := List.ne_nil_of_mem hdigest
      have hown := List.getLast?_eq_some_getLast hne
      rw [hlast _ hown] at hown
      exact h hspeaks lineId canonical' hknown' htarget (by simp [haccepted]) hown digest hdigest

end Replay

/-- A script with two digests for one line, of which only the last is the
line's own. -/
def lookalikeReplay : Replay where
  script := {
    ops := [.replaceLine "l1".toList "corrigé".toList none]
    protocolVersion := some editProtocolVersion
    preconditions := [⟨"l1".toList, none, "un autre texte".toList⟩,
      ⟨"l1".toList, none, "texte".toList⟩] }
  canonicalById := [("l1".toList, "texte".toList)]
  chunkLineIds := none
  guard := .default
  roleOf := fun _ => .none
  pageId := some "p1".toList

/-- **The line is changed although a digest recorded for it is not its
own.** -/
theorem lookalikeReplay_unguarded : ¬ @Replay.ScopedAndGuarded ⟨id⟩ lookalikeReplay := by
  let : Digest := ⟨id⟩
  intro h
  have htext : lookalikeReplay.textOf "l1".toList = some "corrigé".toList := by decide +kernel
  have hsame := h.guarded _ _ htext "texte".toList rfl "un autre texte".toList
    (by decide +kernel)
  exact absurd hsame (by decide +kernel)

end Saknussemm
