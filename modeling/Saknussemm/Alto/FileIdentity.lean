import Saknussemm.Alto.Identity

/-! # The IDs of a rewritten ALTO file.

Each line is rewritten by itself: a new word is named after its line, so no
two lines give one name.  No name is looked up among the IDs of the spaces and
marks of its line, or in the rest of the file. -/

namespace Saknussemm.Alto

open FreshNames (FirstFree)
open Page (Numerals)

/-! ## The IDs of a file -/

/-- The IDs of a line and of what it contains. -/
def FileLine.ids (entry : FileLine) : List Str :=
  (idOf entry.line.attrib).toList ++ (childIds entry.line.children ++ entry.insideStrings)

/-- The IDs of a file. -/
def AltoFile.ids (file : AltoFile) : List Str := file.elsewhere ++ file.lines.flatMap FileLine.ids

section File

variable [Unicode] [Numerals] [Casing]

omit [Numerals] [Casing] in
/-- The manifest a line is rebuilt with, if it is. -/
def rebuiltAs (manifests : Dict Str LineManifest) (entry : FileLine) : Option LineManifest :=
  (manifestOf manifests entry).filter (rebuilds entry.line)

/-- The IDs of a line and of what stays in it. -/
def FileLine.staying (manifests : Dict Str LineManifest) (entry : FileLine) : List Str :=
  (idOf entry.line.attrib).toList ++
    match rebuiltAs manifests entry with
    | some lm => stayingOnRebuilt entry.line lm
    | none => childIds entry.line.children ++ entry.insideStrings

/-- The names given on a line. -/
def FileLine.names (manifests : Dict Str LineManifest) (entry : FileLine) : List Str :=
  match rebuiltAs manifests entry with
  | some lm => newNames entry.line lm
  | none => []

/-- The IDs of a file that stay. -/
def AltoFile.staying (manifests : Dict Str LineManifest) (file : AltoFile) : List Str :=
  file.elsewhere ++ file.lines.flatMap (FileLine.staying manifests)

/-- What becomes of a line of a file. -/
def RewrittenAs (manifests : Dict Str LineManifest) (entry entry' : FileLine) : Prop :=
  match manifestOf manifests entry with
  | none => entry' = entry
  | some lm => rewriteFileLine entry lm = .ok entry'

/-- The loop over a file rewrites its lines one by one, in place. -/
theorem forall₂_rewriteFileLines {sourceName : Str} {manifests : Dict Str LineManifest}
    {seen : List Str} {entries entries' : List FileLine}
    (h : rewriteFileLines sourceName manifests seen entries = .ok entries') :
    List.Forall₂ (RewrittenAs manifests) entries entries' := by
  induction entries generalizing seen entries' with
  | nil =>
    cases h
    exact .nil
  | cons entry entries ih =>
    rw [rewriteFileLines] at h
    cases hmanifest : manifestOf manifests entry with
    | none =>
      rw [hmanifest] at h
      obtain ⟨rest, hrest, h⟩ := Fallible.bind_eq_ok.mp h
      cases h
      refine .cons ?_ (ih hrest)
      rw [RewrittenAs, hmanifest]
    | some lm =>
      rw [hmanifest] at h
      dsimp only at h
      split at h
      · cases h
      · obtain ⟨entry', hentry, h⟩ := Fallible.bind_eq_ok.mp h
        obtain ⟨rest, hrest, h⟩ := Fallible.bind_eq_ok.mp h
        cases h
        refine .cons ?_ (ih hrest)
        rw [RewrittenAs, hmanifest]
        exact Fallible.mapError_eq_ok.mp hentry

/-- A rebuilt line names its words. -/
theorem renamed_of_rebuiltAs {manifests : Dict Str LineManifest} {entry entry' : FileLine}
    (h : RewrittenAs manifests entry entry') {lm : LineManifest}
    (hrebuilt : rebuiltAs manifests entry = some lm) :
    Renamed entry.line lm entry'.line.children ∧ entry'.insideStrings = [] ∧
      entry'.line.attrib = entry.line.attrib := by
  obtain ⟨hmanifest, hrebuilds⟩ := Option.filter_eq_some_iff.mp hrebuilt
  rw [RewrittenAs, hmanifest] at h
  obtain ⟨rewritten, hline, h⟩ := Fallible.bind_eq_ok.mp h
  cases h
  obtain ⟨hpath, hrenamed⟩ := (ids_rewriteTextline hline).1 hrebuilds
  exact ⟨hrenamed, if_pos hpath, rfl⟩

/-- Any other line keeps its IDs. -/
theorem ids_of_not_rebuiltAs {manifests : Dict Str LineManifest} {entry entry' : FileLine}
    (h : RewrittenAs manifests entry entry') (hrebuilt : rebuiltAs manifests entry = none) :
    entry'.ids = entry.ids := by
  unfold RewrittenAs at h
  cases hmanifest : manifestOf manifests entry with
  | none =>
    rw [hmanifest] at h
    rw [show entry' = entry from h]
  | some lm =>
    rw [hmanifest] at h
    obtain ⟨rewritten, hline, h⟩ := Fallible.bind_eq_ok.mp h
    cases h
    rw [rebuiltAs, hmanifest, Option.filter_eq_none_iff] at hrebuilt
    obtain ⟨hpath, hids⟩ := (ids_rewriteTextline hline).2 (Bool.eq_false_iff.mpr (hrebuilt lm rfl))
    rw [FileLine.ids, FileLine.ids, if_neg hpath]
    dsimp only
    rw [hids]

/-- **The IDs of a rewritten line**: those that stay, and the names given. -/
theorem perm_ids {manifests : Dict Str LineManifest} {entry entry' : FileLine}
    (h : RewrittenAs manifests entry entry') :
    entry'.ids.Perm (entry.staying manifests ++ entry.names manifests) := by
  rw [FileLine.staying, FileLine.names]
  cases hrebuilt : rebuiltAs manifests entry with
  | none =>
    rw [ids_of_not_rebuiltAs h hrebuilt]
    exact .of_eq (List.append_nil _).symm
  | some lm =>
    obtain ⟨hrenamed, hinside, hattrib⟩ := renamed_of_rebuiltAs h hrebuilt
    rw [FileLine.ids, hinside, hattrib, List.append_nil]
    dsimp only
    rw [List.append_assoc]
    exact hrenamed.ids.append_left _

omit [Casing] in
/-- What stays of a line was there. -/
theorem FileLine.staying_subperm (manifests : Dict Str LineManifest) (entry : FileLine) :
    (entry.staying manifests).Subperm entry.ids := by
  rw [FileLine.staying, FileLine.ids]
  apply (List.Subperm.refl _).append
  cases rebuiltAs manifests entry with
  | none => exact .refl _
  | some lm =>
    exact (stayingOnRebuilt_subperm entry.line lm).trans (List.sublist_append_left _ _).subperm

omit [Numerals] [Casing] in
theorem nodup_names (manifests : Dict Str LineManifest) (entry : FileLine) :
    (entry.names manifests).Nodup := by
  rw [FileLine.names]
  cases rebuiltAs manifests entry with
  | none => exact List.nodup_nil
  | some lm => exact nodup_newNames _ _

omit [Unicode] [Numerals] [Casing] in
/-- The manifest of a line has the line's ID. -/
theorem idOf_of_manifestOf {pages : List PageManifest} {entry : FileLine} {lm : LineManifest}
    (h : manifestOf (manifestById pages) entry = some lm) : idOf entry.line.attrib =
        some lm.lineId := by
  obtain ⟨id, hid, hget⟩ := Option.bind_eq_some_iff.mp h
  obtain ⟨lm', -, hentry⟩ := List.mem_map.mp (Dict.mem_of_mem_ofList (Dict.mem_of_get? hget))
  cases hentry
  exact hid

omit [Numerals] [Casing] in
/-- Lines that share no ID give no name twice. -/
theorem disjoint_names {pages : List PageManifest} {entry entry' : FileLine}
    (h : List.Disjoint entry.ids entry'.ids) :
    List.Disjoint (entry.names (manifestById pages)) (entry'.names (manifestById pages)) := by
  intro id hid hid'
  rw [FileLine.names] at hid hid'
  cases hrebuilt : rebuiltAs (manifestById pages) entry with
  | none =>
    rw [hrebuilt] at hid
    cases hid
  | some lm =>
    cases hrebuilt' : rebuiltAs (manifestById pages) entry' with
    | none =>
      rw [hrebuilt'] at hid'
      cases hid'
    | some lm' =>
      rw [hrebuilt] at hid
      rw [hrebuilt'] at hid'
      obtain ⟨n, k, hname⟩ := exists_of_mem_newNames hid
      obtain ⟨n', k', hname'⟩ := exists_of_mem_newNames hid'
      -- a name tells its line, and the lines have different IDs
      have hline := (stringId_inj (hname.symm.trans hname')).1
      have hown := idOf_of_manifestOf (Option.filter_eq_some_iff.mp hrebuilt).1
      have hown' := idOf_of_manifestOf (Option.filter_eq_some_iff.mp hrebuilt').1
      refine h (a := lm.lineId) ?_ ?_
      · rw [FileLine.ids, hown]
        exact List.mem_append_left _ List.mem_cons_self
      · rw [FileLine.ids, hown', ← hline]
        exact List.mem_append_left _ List.mem_cons_self

omit [Unicode] [Numerals] [Casing] in
theorem subperm_flatMap {α β : Type*} {f g : α → List β}
    (hfg : ∀ a, (f a).Subperm (g a)) (l : List α) :
    (l.flatMap f).Subperm (l.flatMap g) := by
  induction l with
  | nil => exact .refl _
  | cons a l ih =>
    rw [List.flatMap_cons, List.flatMap_cons]
    exact (hfg a).append ih

/-- **The IDs of a rewritten file.** -/
theorem perm_ids_lines {manifests : Dict Str LineManifest} {entries entries' : List FileLine}
    (h : List.Forall₂ (RewrittenAs manifests) entries entries') :
    (entries'.flatMap FileLine.ids).Perm
      (entries.flatMap (FileLine.staying manifests) ++ entries.flatMap
          (FileLine.names manifests)) := by
  induction h with
  | nil => exact .refl _
  | cons hentry _ ih =>
    rw [List.flatMap_cons, List.flatMap_cons, List.flatMap_cons]
    refine ((perm_ids hentry).append ih).trans (List.perm_iff_count.mpr fun id => ?_)
    simp only [List.count_append]
    omega

/-- The identities of a rebuilt line: each word keeps the ID of the one word it
was matched with, or gets the first of its names that no word keeps. -/
structure KeepsIdentities (line : TextLine) (lm : LineManifest) (children : List Child) : Prop where
  words : (stringChildren children).length = (rebuiltWords lm).length
  single : ∀ n m i, (lineAlignment line (rebuiltTokens lm)).sourceForTarget n = some i →
    (lineAlignment line (rebuiltTokens lm)).sourceForTarget m = some i → n = m
  kept : ∀ n id, (sourceOf line lm n).bind idOf = some id →
    (stringChildren children)[n]?.bind idOf = some id
  named : ∀ n ∈ newWords line lm, ∃ id, FirstFree (stringId lm.lineId n)
    (keptStringIds line lm) id ∧ (stringChildren children)[n]?.bind idOf = some id

/-- **Rebuilding keeps the IDs of a file**: no two elements share one, and
every word of a rebuilt line has its own. -/
structure KeepsIds (manifests : Dict Str LineManifest) (file rewritten : AltoFile) : Prop where
  distinct : rewritten.ids.Nodup
  identities : List.Forall₂
    (fun entry entry' => ∀ lm, rebuiltAs manifests entry = some lm →
      KeepsIdentities entry.line lm entry'.line.children) file.lines rewritten.lines

/-- The first name of a new word that no word of its line keeps is no ID of an
element that stays. -/
def NamesFree (manifests : Dict Str LineManifest) (file : AltoFile) : Prop :=
  ∀ entry ∈ file.lines, ∀ lm, rebuiltAs manifests entry = some lm →
    ∀ n ∈ newWords entry.line lm, ∀ id,
      FirstFree (stringId lm.lineId n) (keptStringIds entry.line lm) id →
        id ∉ file.staying manifests

omit [Unicode] [Casing] in
/-- Renamed children keep the identities a rewrite may not lose. -/
theorem keepsIdentities_of_renamed {line : TextLine} {lm : LineManifest} {children : List Child}
    (h : Renamed line lm children) : KeepsIdentities line lm children where
  words := by
    have hlength := congrArg List.length h.words
    rwa [List.length_map, List.length_map, List.length_range] at hlength
  single := fun _ _ _ hn hm => sourceForTarget_inj hn hm
  kept := by
    intro n id hid
    obtain ⟨attrib, hattrib, -⟩ := Option.bind_eq_some_iff.mp hid
    obtain ⟨i, hi, -⟩ := Option.map_eq_some_iff.mp hattrib
    rw [idOf_stringChildren_get? h.words (lt_of_sourceForTarget hi), newId, hid]
    rfl
  named := by
    intro n hn
    obtain ⟨hlt, hnone⟩ := List.mem_filter.mp hn
    refine ⟨_, firstFree_generatedId lm.lineId n (keptStringIds line lm), ?_⟩
    rw [idOf_stringChildren_get? h.words (List.mem_range.mp hlt), newId,
      Option.isNone_iff_eq_none.mp hnone]
    rfl

omit [Casing] in
/-- The names given in a file, and the condition on them. -/
theorem namesFree_iff (manifests : Dict Str LineManifest) (file : AltoFile) :
    NamesFree manifests file ↔ ∀ id ∈ file.staying manifests,
      ∀ name ∈ file.lines.flatMap (FileLine.names manifests), id ≠ name := by
  constructor
  · intro hfree id hid name hname heq
    obtain ⟨entry, hentry, hname⟩ := List.mem_flatMap.mp hname
    rw [FileLine.names] at hname
    cases hrebuilt : rebuiltAs manifests entry with
    | none =>
      rw [hrebuilt] at hname
      cases hname
    | some lm =>
      rw [hrebuilt] at hname
      obtain ⟨n, hn, rfl⟩ := List.mem_map.mp hname
      subst heq
      exact hfree entry hentry lm hrebuilt n hn _ (firstFree_generatedId _ _ _) hid
  · intro hdisjoint entry hentry lm hrebuilt n hn id hfirst hid
    refine hdisjoint id hid _ (List.mem_flatMap.mpr ⟨entry, hentry, ?_⟩)
      (hfirst.unique (firstFree_generatedId lm.lineId n (keptStringIds entry.line lm)))
    rw [FileLine.names, hrebuilt]
    exact List.mem_map_of_mem hn

/-- **Rebuilding creates a duplicate ID just when a new word is named like an
element that stays.** -/
theorem keepsIds_iff {sourceName : Str} {pages : List PageManifest} {file rewritten : AltoFile}
    (hdistinct : file.ids.Nodup) (h : rewriteAltoFile sourceName pages file = .ok rewritten) :
    KeepsIds (manifestById pages) file rewritten ↔ NamesFree (manifestById pages) file := by
  obtain ⟨_, -, h⟩ := Fallible.bind_eq_ok.mp h
  obtain ⟨entries, hlines, h⟩ := Fallible.bind_eq_ok.mp h
  cases h
  have hrewritten := forall₂_rewriteFileLines hlines
  have hidentities : List.Forall₂
      (fun entry entry' => ∀ lm, rebuiltAs (manifestById pages) entry = some lm →
        KeepsIdentities entry.line lm entry'.line.children) file.lines entries :=
    hrewritten.imp fun entry entry' hentry lm hrebuilt =>
      keepsIdentities_of_renamed (renamed_of_rebuiltAs hentry hrebuilt).1
  -- up to order, the new file's ids are those that stay and the names given out
  have hids : (AltoFile.ids { file with lines := entries }).Perm
      (file.staying (manifestById pages) ++
      file.lines.flatMap (FileLine.names (manifestById pages))) := by
    rw [AltoFile.ids, AltoFile.staying, List.append_assoc]
    exact (perm_ids_lines hrewritten).append_left _
  -- the ids that stay were distinct already, and the names of two lines never meet
  have hstaying : (file.staying (manifestById pages)).Nodup := by
    have hsubperm : (file.staying (manifestById pages)).Subperm file.ids :=
      (List.Subperm.refl _).append (subperm_flatMap (FileLine.staying_subperm _) _)
    obtain ⟨ids, hperm, hsublist⟩ := hsubperm
    exact hperm.nodup_iff.mp (hsublist.nodup hdistinct)
  have hnames : (file.lines.flatMap (FileLine.names (manifestById pages))).Nodup := by
    rw [List.nodup_flatMap]
    refine ⟨fun entry _ => nodup_names _ entry, ?_⟩
    have hlines := (List.nodup_append.mp hdistinct).2.1
    exact (List.nodup_flatMap.mp hlines).2.imp disjoint_names
  rw [namesFree_iff]
  constructor
  · intro hkeeps
    exact (List.nodup_append.mp (hids.nodup_iff.mp hkeeps.distinct)).2.2
  · intro hdisjoint
    exact ⟨hids.nodup_iff.mpr (List.nodup_append.mpr ⟨hstaying, hnames, hdisjoint⟩), hidentities⟩

end File

/-! ## A space with an ID -/

/-- A file of one line of two words, the space between which has an ID. -/
def spacedFile (spaceId : String) : AltoFile where
  elsewhere := []
  lines := [{
    line := {
      attrib := [("ID".toList, ['l']), ("HPOS".toList, ['0']), ("VPOS".toList, ['0']),
        ("WIDTH".toList, "40".toList), ("HEIGHT".toList, ['1'])]
      children := [
        .string [("ID".toList, "l0".toList), ("CONTENT".toList, "un".toList)],
        .sp [("ID".toList, spaceId.toList)],
        .string [("ID".toList, "l1".toList), ("CONTENT".toList, "mot".toList)]] }
    insideStrings := [] }]

/-- Its page: a word was put between the two. -/
def spacedPage : PageManifest :=
  { plainPage "a.xml" "p" 0 [] with
    lines := [{ plainLine ['p'] 0 "l" "un mot" .none with
      correctedText := some "un petit mot".toList }] }

/-- With free names the spaced file keeps its identities. -/
theorem keepsIds_spacedFile : ∃ rewritten,
    @rewriteAltoFile .ascii .ascii .digits "a.xml".toList [spacedPage] (spacedFile "l_SP_0001") =
      .ok rewritten ∧
    @KeepsIds .ascii (manifestById [spacedPage]) (spacedFile "l_SP_0001") rewritten := by
  let _ := Unicode.ascii
  let _ := Casing.ascii
  let _ := Numerals.digits
  have hok : (rewriteAltoFile "a.xml".toList [spacedPage]
      (spacedFile "l_SP_0001")).isOk = true := by
    decide +kernel
  have hdistinct : (spacedFile "l_SP_0001").ids.Nodup := by decide
  have hfree : ∀ id ∈ (spacedFile "l_SP_0001").staying (manifestById [spacedPage]),
      ∀ name ∈ (spacedFile "l_SP_0001").lines.flatMap (FileLine.names (manifestById [spacedPage])),
        id ≠ name := by
    decide +kernel
  cases hrewrite : rewriteAltoFile "a.xml".toList [spacedPage] (spacedFile "l_SP_0001") with
  | error error =>
    rw [hrewrite] at hok
    cases hok
  | ok rewritten =>
    exact ⟨rewritten, rfl, (keepsIds_iff hdistinct hrewrite).mpr ((namesFree_iff _ _).mpr hfree)⟩

/-- **One ID, two elements**: the new word gets the ID the space has. -/
theorem not_keepsIds_spacedFile : (spacedFile "l_STR_0001").ids.Nodup ∧ ∃ rewritten,
    @rewriteAltoFile .ascii .ascii .digits "a.xml".toList [spacedPage] (spacedFile "l_STR_0001") =
      .ok rewritten ∧
    ¬ @KeepsIds .ascii (manifestById [spacedPage]) (spacedFile "l_STR_0001") rewritten := by
  let _ := Unicode.ascii
  let _ := Casing.ascii
  let _ := Numerals.digits
  have hids : (rewriteAltoFile "a.xml".toList [spacedPage] (spacedFile "l_STR_0001")).toOption.map
      AltoFile.ids =
      some [['l'], "l0".toList, "l_STR_0001".toList, "l_STR_0001".toList, "l1".toList] := by
    decide +kernel
  refine ⟨by decide, ?_⟩
  cases hrewrite : rewriteAltoFile "a.xml".toList [spacedPage] (spacedFile "l_STR_0001") with
  | error error =>
    rw [hrewrite] at hids
    cases hids
  | ok rewritten =>
    rw [hrewrite] at hids
    refine ⟨rewritten, rfl, fun hkeeps => ?_⟩
    have hdistinct := hkeeps.distinct
    rw [Option.some.inj hids] at hdistinct
    exact absurd hdistinct (by decide)

end Saknussemm.Alto
