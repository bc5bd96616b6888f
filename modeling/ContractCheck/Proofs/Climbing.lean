import ContractCheck.Manifest
import ContractCheck.Proofs.PathSteps

/-!
The search for a manifest climbs by the text of a path, wherever its names lead. The directories
that it comes by are thus those that the path itself goes through (`Manifest.find?_nearest`). They
are the ancestors of the input if the path has no `..`, and up to the root only if it starts there.
-/

namespace ContractCheck

namespace Location

/-- One name further from a location. -/
def go (loc : Location) (name : String) : Location := if name = ".." then loc.tail else name :: loc

/-- Where names lead, the last one first. -/
def lead (loc : Location) (steps : List String) : Location :=
  steps.foldr (fun name loc => loc.go name) loc

/-- Names that are not `..` lead down. -/
theorem lead_eq_append (loc : Location) {steps : List String} (h : ".." ∉ steps) :
    loc.lead steps = steps ++ loc := by
  induction steps with
  | nil => rfl
  | cons name steps ih =>
      obtain ⟨hname, hsteps⟩ := not_or.1 (mt List.mem_cons.2 h)
      change (loc.lead steps).go name = _
      rw [ih hsteps, go, if_neg (Ne.symm hname)]
      rfl

/-- The locations from one below another up to that one. -/
theorem tails_filter_isSuffixOf (loc : Location) (steps : List String) :
    (steps ++ loc).tails.filter loc.isSuffixOf = steps.tails.map (· ++ loc) := by
  induction steps with
  | nil =>
      cases loc with
      | nil => rfl
      | cons name above =>
          have hnone : above.tails.filter (name :: above).isSuffixOf = [] := by
            refine List.filter_eq_nil_iff.2 fun other hother hsuffix => ?_
            have hle := (List.isSuffixOf_iff_suffix.1 hsuffix).length_le
            have hge := ((List.mem_tails _ _).1 hother).length_le
            rw [List.length_cons] at hle
            omega
          have hself : (name :: above).isSuffixOf (name :: above) = true :=
            List.isSuffixOf_iff_suffix.2 List.suffix_rfl
          rw [List.nil_append, List.tails_cons, List.filter_cons_of_pos hself, hnone]
          rfl
  | cons name steps ih =>
      have hself : loc.isSuffixOf (name :: (steps ++ loc)) = true :=
        List.isSuffixOf_iff_suffix.2 (List.suffix_append (name :: steps) loc)
      rw [List.cons_append, List.tails_cons, List.filter_cons_of_pos hself, ih, List.tails_cons,
        List.map_cons]
      rfl

end Location

namespace Workspace

variable {w : Workspace} {loc loc' : Location}

/-- Parts can only be taken from a directory. -/
theorem walkPart_of_file {content : ByteArray} (h : w.root.at? loc = some (.file content))
    (part : String) : w.walkPart loc part = .error .notDirectory := by
  rw [walkPart, h]

theorem walkPart_of_none (h : w.root.at? loc = none) (part : String) :
    w.walkPart loc part = .error .missing := by
  rw [walkPart, h]

theorem walkPart_eq_ok {part : String} (h : w.walkPart loc part = .ok loc') :
    (∃ entries, w.root.at? loc = some (.dir entries)) ∧
      loc' = if Path.isName part then loc.go part else loc := by
  unfold walkPart at h
  split at h
  · cases h
  · cases h
  · rename_i entries hdir
    refine ⟨⟨entries, hdir⟩, ?_⟩
    split at h
    · rename_i hhere
      cases h
      rcases hhere with rfl | rfl <;> rfl
    · rename_i hhere
      have hname : Path.isName part = true := by
        rw [Path.isName, Bool.and_eq_true, bne_iff_ne, bne_iff_ne]
        exact not_or.1 hhere
      rw [if_pos hname, Location.go]
      split at h
      · rename_i hup
        cases h
        rw [if_pos hup]
      · rename_i hup
        rw [if_neg hup]
        split at h
        · cases h
        · split at h
          · cases h
            rfl
          · cases h

/-- Parts that are no names make no difference to a walk that comes through. -/
theorem walk_filter {parts : List String} (h : w.walk loc parts = .ok loc') :
    w.walk loc (parts.filter Path.isName) = .ok loc' := by
  induction parts generalizing loc with
  | nil => exact h
  | cons part parts ih =>
      unfold walk at h
      rw [List.foldlM_cons] at h
      rcases hpart : w.walkPart loc part with fault | next
      · rw [hpart] at h
        cases h
      · rw [hpart] at h
        cases hname : Path.isName part with
        | true =>
            rw [List.filter_cons_of_pos hname]
            unfold walk
            rw [List.foldlM_cons, hpart]
            exact ih h
        | false =>
            rw [List.filter_cons_of_neg (by rw [hname]; exact Bool.false_ne_true)]
            obtain ⟨-, hnext⟩ := walkPart_eq_ok hpart
            rw [hname, if_neg Bool.false_ne_true] at hnext
            subst hnext
            exact ih h

/-- Nor do they to a walk, however it ends, that goes one part further. -/
theorem walk_filter_concat (parts : List String) (name : String) :
    w.walk loc (parts ++ [name]) = w.walk loc (parts.filter Path.isName ++ [name]) := by
  induction parts generalizing loc with
  | nil => rfl
  | cons part parts ih =>
      cases hpart : Path.isName part with
      | true =>
          rw [List.filter_cons_of_pos hpart]
          unfold walk
          rw [List.cons_append, List.cons_append, List.foldlM_cons, List.foldlM_cons]
          rcases w.walkPart loc part with fault | next
          · rfl
          · exact ih
      | false =>
          rw [List.filter_cons_of_neg (by rw [hpart]; exact Bool.false_ne_true), ← ih]
          unfold walk
          rw [List.cons_append, List.foldlM_cons]
          obtain ⟨first, rest, hrest⟩ := List.exists_cons_of_ne_nil
            (List.append_ne_nil_of_right_ne_nil parts (List.cons_ne_nil name []))
          -- whether it stands in a directory, the walk notices at the next part as well
          rw [hrest, List.foldlM_cons]
          cases hat : w.root.at? loc with
          | none =>
              rw [walkPart_of_none hat, walkPart_of_none hat]
              rfl
          | some tree =>
              cases tree with
              | file content =>
                  rw [walkPart_of_file hat, walkPart_of_file hat]
                  rfl
              | dir entries =>
                  have hstay : w.walkPart loc part = .ok loc := by
                    rw [walkPart, hat]
                    refine if_pos ?_
                    by_contra hhere
                    obtain ⟨hnonempty, hdot⟩ := not_or.1 hhere
                    rw [Path.isName, bne_iff_ne.2 hnonempty, bne_iff_ne.2 hdot] at hpart
                    cases hpart
                  rw [hstay]
                  rfl

/-- A walk along names ends where they lead. -/
theorem eq_lead_of_walk {steps : List String} (hnames : ∀ name ∈ steps, Path.isName name = true)
    (h : w.walk loc steps.reverse = .ok loc') : loc' = loc.lead steps := by
  induction steps generalizing loc' with
  | nil =>
      cases h
      rfl
  | cons name steps ih =>
      obtain ⟨hname, hnames⟩ := List.forall_mem_cons.1 hnames
      unfold walk at h
      rw [List.reverse_cons, List.foldlM_append] at h
      rcases hwalk : List.foldlM w.walkPart loc steps.reverse with fault | next
      · rw [hwalk] at h
        cases h
      · rw [hwalk] at h
        change (w.walkPart next name >>= pure) = .ok loc' at h
        rw [bind_pure] at h
        obtain ⟨-, hloc'⟩ := walkPart_eq_ok h
        rw [hname, if_pos rfl, ih hnames hwalk] at hloc'
        exact hloc'

/-- A walk that comes through comes by all locations on the way. -/
theorem walk_of_suffix {steps before : List String} (hbefore : before <:+ steps)
    (h : w.walk loc steps.reverse = .ok loc') : ∃ next, w.walk loc before.reverse = .ok next := by
  obtain ⟨later, rfl⟩ := hbefore
  unfold walk at h
  rw [List.reverse_append, List.foldlM_append] at h
  rcases hwalk : List.foldlM w.walkPart loc before.reverse with fault | next
  · rw [hwalk] at h
    cases h
  · exact ⟨next, hwalk⟩

/-- One part further than a walk that came through. -/
theorem walk_concat {parts : List String} (h : w.walk loc parts = .ok loc') (name : String) :
    w.walk loc (parts ++ [name]) = w.walkPart loc' name := by
  unfold walk at h ⊢
  rw [List.foldlM_append, h]
  change (w.walkPart loc' name >>= pure) = _
  rw [bind_pure]

end Workspace

namespace Manifest

variable {w : Workspace}

/-- What a search finds among the images, if the search knows no more than the image. -/
theorem map_find?_eq_of_image {α β γ : Type} {l : List α} {f : α → β} {P : α → Bool} {Q : β → Bool}
    {r : α → γ} {g : β → γ} (hP : ∀ a ∈ l, P a = Q (f a))
    (hr : ∀ a ∈ l, P a = true → r a = g (f a)) :
    (l.find? P).map r = ((l.map f).find? Q).map g := by
  induction l with
  | nil => rfl
  | cons a l ih =>
      obtain ⟨hPa, hP⟩ := List.forall_mem_cons.1 hP
      obtain ⟨hra, hr⟩ := List.forall_mem_cons.1 hr
      rw [List.map_cons, List.find?_cons, List.find?_cons, ← hPa]
      cases hfound : P a with
      | true => exact congrArg some (hra hfound)
      | false => exact ih hP hr

theorem slash_not_mem_fileName : '/' ∉ fileName.toList := by decide

/-- An entry of the manifest's name is in the directory. -/
def isIn (w : Workspace) (dir : Location) : Bool := (w.root.at? (fileName :: dir)).isSome

theorem walkPart_fileName (w : Workspace) (dir : Location) : (w.walkPart dir fileName).toOption =
    if isIn w dir then some (fileName :: dir) else none := by
  unfold isIn Workspace.walkPart
  rw [FileTree.at?]
  rcases hat : w.root.at? dir with _ | ⟨content⟩ | ⟨entries⟩
  · rfl
  · rfl
  · simp only
    rw [if_neg (by decide), if_neg (by decide), if_neg (by decide), Option.bind_some,
      FileTree.child?]
    cases entries.lookup fileName <;> rfl

/-- The path whose ancestors are searched for a manifest. -/
def searched? (w : Workspace) (start : Path) : Option Path :=
  if w.isFile start then start.parent? else some start

theorem find?_eq (w : Workspace) (start : Path) : find? w start =
    (searched? w start).bind fun dir => (candidates dir).find? w.exists? := by
  unfold find? searched?
  split <;> rfl

theorem permit_join {p : Path} (hnul : '\x00' ∉ p.text.toList)
    (hfits : (p.join fileName).text.utf8ByteSize ≤ Workspace.pathLimit) :
    Workspace.permit (p.join fileName) = .ok () := by
  have hends : ∃ start, (p.join fileName).text = start ++ fileName ∧ '\x00' ∉ start.toList := by
    rcases p.text_join slash_not_mem_fileName with ⟨_, _, htext⟩ | ⟨_, htext⟩ | ⟨_, htext⟩
    · exact ⟨_, htext, hnul⟩
    · exact ⟨_, htext, hnul⟩
    · refine ⟨_, htext, ?_⟩
      rw [String.toList_append, List.mem_append]
      exact not_or.2 ⟨hnul, by decide⟩
  obtain ⟨start, htext, hstart⟩ := hends
  have hcontains : (p.join fileName).text.toList.contains '\x00' = false := by
    rw [← Bool.not_eq_true, List.contains_iff_mem, htext, String.toList_append, List.mem_append]
    exact not_or.2 ⟨hstart, by decide⟩
  have hne : (p.join fileName).text ≠ "" := by
    intro hempty
    have hlength := congrArg String.length (htext.symm.trans hempty)
    rw [String.length_append] at hlength
    have hpos : 0 < fileName.length := by decide
    rw [String.length_empty] at hlength
    omega
  unfold Workspace.permit
  rw [hcontains, if_neg Bool.false_ne_true, if_neg hne, if_neg (Nat.not_lt.2 hfits)]

/-- What is known of a path whose ancestors are searched: it leads somewhere, and the candidate
beside it is no longer than a path may be. -/
structure Searchable (w : Workspace) (dir : Path) : Prop where
  leads : ∃ loc, w.walk (w.origin dir) dir.steps.reverse = .ok loc
  noNul : '\x00' ∉ dir.text.toList
  fits : (dir.join fileName).text.utf8ByteSize ≤ Workspace.pathLimit

theorem Searchable.parent? {dir parent : Path} (h : Searchable w dir)
    (hparent : dir.parent? = some parent) : Searchable w parent := by
  have hstarts := Path.parent?_prefix_self hparent
  refine ⟨?_, fun hnul => h.noNul (hstarts.subset hnul), ?_⟩
  · obtain ⟨loc, hloc⟩ := h.leads
    have horigin : w.origin parent = w.origin dir := by
      unfold Workspace.origin
      rw [Path.isAbsolute_parent? hparent]
    rw [horigin]
    refine Workspace.walk_of_suffix ?_ hloc
    rw [Path.steps_parent? hparent]
    exact List.tail_suffix _
  · exact Nat.le_trans (Path.utf8ByteSize_join_le slash_not_mem_fileName hstarts) h.fits

/-- The candidate beside a path is what is in the directory that the path leads to. -/
theorem Searchable.resolve {dir : Path} (h : Searchable w dir) :
    (w.resolve (dir.join fileName)).toOption =
      if isIn w ((w.origin dir).lead dir.steps) then
        some (fileName :: (w.origin dir).lead dir.steps) else none := by
  obtain ⟨loc, hloc⟩ := h.leads
  have hlead := Workspace.eq_lead_of_walk Path.isName_of_mem_steps hloc
  obtain ⟨before, hparts, hfilter⟩ := dir.parts_join slash_not_mem_fileName
  have hpermit := permit_join h.noNul h.fits
  have horigin : w.origin (dir.join fileName) = w.origin dir := by
    unfold Workspace.origin
    rw [Path.isAbsolute_join dir slash_not_mem_fileName]
  have hwalk : w.resolve (dir.join fileName) = w.walkPart loc fileName := by
    unfold Workspace.resolve
    rw [hpermit, horigin, hparts]
    change w.walk (w.origin dir) (before ++ [fileName]) = _
    rw [Workspace.walk_filter_concat, hfilter]
    exact Workspace.walk_concat hloc fileName
  rw [hwalk, walkPart_fileName, hlead]

theorem Searchable.exists?_join {dir : Path} (h : Searchable w dir) :
    w.exists? (dir.join fileName) = isIn w ((w.origin dir).lead dir.steps) := by
  have hresolve := h.resolve
  unfold Workspace.exists? Workspace.find?
  cases hin : isIn w ((w.origin dir).lead dir.steps) with
  | true =>
      rw [hin, if_pos rfl] at hresolve
      rcases hpath : w.resolve (dir.join fileName) with fault | loc
      · rw [hpath] at hresolve
        cases hresolve
      · rw [hpath] at hresolve
        cases hresolve
        exact hin
  | false =>
      rw [hin, if_neg Bool.false_ne_true] at hresolve
      rcases hpath : w.resolve (dir.join fileName) with fault | loc
      · rfl
      · rw [hpath] at hresolve
        cases hresolve

/-- Among the ancestors of a path, the search finds the manifest of the first directory that has
one, of those that the names lead to. -/
theorem Searchable.find?_candidates {dir : Path} (h : Searchable w dir) :
    ((candidates dir).find? w.exists?).map (fun path => (w.resolve path).toOption) =
      ((dir.steps.tails.map (w.origin dir).lead).find? (isIn w)).map
        fun dir => some (fileName :: dir) := by
  have hancestors : ∀ p ∈ dir.ancestors, Searchable w p ∧ w.origin p = w.origin dir :=
    Path.forall_mem_ancestors (fun p q hp hparent => ⟨hp.1.parent? hparent, by
      rw [← hp.2]
      unfold Workspace.origin
      rw [Path.isAbsolute_parent? hparent]⟩) ⟨h, rfl⟩
  obtain ⟨again, hagain, hsteps⟩ := dir.map_steps_ancestors
  have himage := map_find?_eq_of_image (l := dir.ancestors)
    (f := fun p => (w.origin dir).lead p.steps) (P := fun p => w.exists? (p.join fileName))
    (Q := isIn w) (r := fun p => (w.resolve (p.join fileName)).toOption)
    (g := fun dir => some (fileName :: dir))
    (fun p hp => by
      obtain ⟨hsearchable, horigin⟩ := hancestors p hp
      rw [hsearchable.exists?_join, horigin])
    (fun p hp hexists => by
      obtain ⟨hsearchable, horigin⟩ := hancestors p hp
      rw [hsearchable.exists?_join, horigin] at hexists
      rw [hsearchable.resolve, horigin, if_pos hexists])
  have hmap : dir.ancestors.map (fun p => (w.origin dir).lead p.steps) =
      (dir.steps.tails ++ again).map (w.origin dir).lead := by
    rw [← hsteps, List.map_map]
    rfl
  rw [candidates, List.find?_map, Option.map_map]
  refine himage.trans ?_
  rw [hmap, List.map_append, List.find?_append]
  cases hfound : (dir.steps.tails.map (w.origin dir).lead).find? (isIn w) with
  | some found => rfl
  | none =>
      have hnone : (again.map (w.origin dir).lead).find? (isIn w) = none := by
        refine List.find?_eq_none.2 fun loc hloc => ?_
        obtain ⟨steps, hmem, rfl⟩ := List.mem_map.1 hloc
        obtain rfl := hagain steps hmem
        refine List.find?_eq_none.1 hfound _ (List.mem_map_of_mem ?_)
        exact (List.mem_tails _ _).2 (List.nil_suffix)
      rw [hnone]
      rfl

end Manifest

namespace Workspace

variable {w : Workspace} {loc : Location} {start : Path}

/-- The directories that a path goes through, the last one first. -/
def directories (w : Workspace) (p : Path) : List Location :=
  (if w.isFile p then p.steps.tail else p.steps).tails.map (w.origin p).lead

/-- The directory of a file, or a directory itself. -/
def directoryOf (w : Workspace) (loc : Location) : Location :=
  match w.root.at? loc with
  | some (.file _) => loc.tail
  | _ => loc

theorem isDir_tail {tree : FileTree} (h : w.root.at? loc = some tree) (hdir : tree.isDir = true) :
    ∃ above, w.root.at? loc.tail = some above ∧ above.isDir = true := by
  cases loc with
  | nil => exact ⟨tree, h, hdir⟩
  | cons name above =>
      rw [FileTree.at?] at h
      obtain ⟨parent, hparent, hchild⟩ := Option.bind_eq_some_iff.1 h
      cases parent with
      | file content => cases hchild
      | dir entries => exact ⟨_, hparent, rfl⟩

theorem walk_of_resolve (h : w.resolve start = .ok loc) :
    w.walk (w.origin start) start.parts = .ok loc ∧ '\x00' ∉ start.text.toList := by
  unfold resolve permit at h
  split at h
  · cases h
  · rename_i hnul
    refine ⟨?_, fun hmem => hnul (List.contains_iff_mem.2 hmem)⟩
    split at h
    · cases h
    · split at h
      · cases h
      · exact h

theorem walk_steps_of_resolve (h : w.resolve start = .ok loc) :
    w.walk (w.origin start) start.steps.reverse = .ok loc := by
  have hwalk := walk_filter (walk_of_resolve h).1
  rwa [Path.parts, Path.filter_isName] at hwalk

theorem isFile_iff (h : w.resolve start = .ok loc) :
    w.isFile start = true ↔ ∃ content, w.root.at? loc = some (.file content) := by
  unfold isFile find?
  rw [h]
  simp only
  rcases w.root.at? loc with _ | ⟨content⟩ | ⟨entries⟩ <;> simp [FileTree.isDir]

/-- The last name of a file's path is that of the file. -/
theorem steps_of_isFile (h : w.resolve start = .ok loc) (hfile : w.isFile start = true) :
    ∃ name before, start.steps = name :: before ∧ loc.tail = (w.origin start).lead before := by
  obtain ⟨content, hcontent⟩ := (isFile_iff h).1 hfile
  have hnot : ∀ {tree : FileTree}, w.root.at? loc = some tree → tree.isDir ≠ true := by
    intro tree htree hdir
    rw [hcontent] at htree
    cases htree
    cases hdir
  have hwalk := walk_steps_of_resolve h
  cases hsteps : start.steps with
  | nil =>
      -- then no part is a name, and the file would be where the path starts
      exfalso
      rw [hsteps] at hwalk
      cases hwalk
      obtain ⟨part, parts, hparts⟩ : ∃ part parts, start.parts = part :: parts :=
        List.exists_cons_of_ne_nil fun hnil =>
          Path.splitSlashes_ne_nil _ (List.map_eq_nil_iff.1 hnil)
      have hparts' := (walk_of_resolve h).1
      unfold walk at hparts'
      rw [hparts, List.foldlM_cons] at hparts'
      rw [walkPart_of_file hcontent] at hparts'
      cases hparts'
  | cons name before =>
      refine ⟨name, before, rfl, ?_⟩
      have hnames := Path.isName_of_mem_steps (p := start)
      rw [hsteps] at hwalk hnames
      obtain ⟨dir, hdir⟩ := walk_of_suffix (List.suffix_cons name before) hwalk
      have hlead := eq_lead_of_walk (List.forall_mem_cons.1 hnames).2 hdir
      rw [List.reverse_cons, walk_concat hdir] at hwalk
      obtain ⟨⟨entries, hentries⟩, hloc⟩ := walkPart_eq_ok hwalk
      rw [(List.forall_mem_cons.1 hnames).1, if_pos rfl, Location.go] at hloc
      split at hloc
      · obtain ⟨above, habove, hisDir⟩ := isDir_tail hentries rfl
        rw [← hloc] at habove
        exact absurd hisDir (hnot habove)
      · rw [hloc, ← hlead]
        rfl

/-- Without `..`, a path goes through the input's directory and what is above that, up to where
the path starts. -/
theorem directories_eq (h : w.resolve start = .ok loc) (hdotdot : ".." ∉ start.parts) :
    w.directories start = (w.directoryOf loc).tails.filter (w.origin start).isSuffixOf := by
  have hsteps : ".." ∉ start.steps := fun hmem => by
    rw [Path.steps, ← List.mem_reverse, ← Path.filter_isName] at hmem
    exact hdotdot (List.mem_filter.1 hmem).1
  have hlead : ∀ steps : List String, ".." ∉ steps →
      steps.tails.map (w.origin start).lead = (steps ++ w.origin start).tails.filter
        (w.origin start).isSuffixOf := by
    intro steps hnot
    rw [Location.tails_filter_isSuffixOf]
    refine List.map_congr_left fun before hbefore => Location.lead_eq_append _ fun hmem => ?_
    exact hnot (((List.mem_tails _ _).1 hbefore).subset hmem)
  have hloc := eq_lead_of_walk Path.isName_of_mem_steps (walk_steps_of_resolve h)
  rw [directories]
  cases hfile : w.isFile start with
  | true =>
      obtain ⟨content, hcontent⟩ := (isFile_iff h).1 hfile
      obtain ⟨name, before, heq, htail⟩ := steps_of_isFile h hfile
      rw [heq] at hsteps
      obtain ⟨-, hbefore⟩ := not_or.1 (mt List.mem_cons.2 hsteps)
      rw [if_pos rfl, heq, List.tail_cons, hlead before hbefore, directoryOf, hcontent]
      simp only
      rw [htail, Location.lead_eq_append _ hbefore]
  | false =>
      have hdirectory : w.directoryOf loc = loc := by
        unfold directoryOf
        split
        · rename_i content hcontent
          rw [(isFile_iff h).2 ⟨content, hcontent⟩] at hfile
          cases hfile
        · rfl
      rw [if_neg Bool.false_ne_true, hlead _ hsteps, hdirectory, hloc,
        Location.lead_eq_append _ hsteps]

end Workspace

namespace Manifest

variable {w : Workspace}

/-- A search starts from a path that has the names of the input's directory. -/
theorem exists_searched? {start : Path} {loc : Location} (h : w.resolve start = .ok loc) :
    ∃ dir, searched? w start = some dir ∧ w.origin dir = w.origin start ∧
      dir.steps = (if w.isFile start then start.steps.tail else start.steps) ∧
      dir.text.toList <+: start.text.toList := by
  unfold searched?
  cases hfile : w.isFile start with
  | true =>
      obtain ⟨name, before, hsteps, -⟩ := Workspace.steps_of_isFile h hfile
      cases hparent : start.parent? with
      | none =>
          rw [Path.steps_of_parent?_eq_none hparent] at hsteps
          cases hsteps
      | some dir =>
          refine ⟨dir, rfl, ?_, Path.steps_parent? hparent, Path.parent?_prefix_self hparent⟩
          unfold Workspace.origin
          rw [Path.isAbsolute_parent? hparent]
  | false => exact ⟨start, rfl, rfl, rfl, List.prefix_rfl⟩

/-- From an input that is there, the search finds the manifest of the first directory that has one,
of those that the input's path goes through. Without `..` in the path these are the input's
directory and its ancestors up to where the path starts, so that it is the nearest one up to the
root that is found from an absolute path. -/
theorem find?_nearest {start : Path} {loc : Location} (h : w.resolve start = .ok loc)
    (hfits : ∀ dir, searched? w start = some dir →
      (dir.join fileName).text.utf8ByteSize ≤ Workspace.pathLimit) :
    (find? w start).map (fun path => (w.resolve path).toOption) =
        ((w.directories start).find? (isIn w)).map (fun dir => some (fileName :: dir)) ∧
      (".." ∉ start.parts → w.directories start =
        (w.directoryOf loc).tails.filter (w.origin start).isSuffixOf) ∧
      (start.isAbsolute = true → ".." ∉ start.parts →
        (find? w start).map (fun path => (w.resolve path).toOption) =
          ((w.directoryOf loc).tails.find? (isIn w)).map fun dir => some (fileName :: dir)) := by
  obtain ⟨dir, hdir, horigin, hsteps, hstarts⟩ := exists_searched? h
  have hsearchable : Searchable w dir := by
    refine ⟨?_, fun hnul => (Workspace.walk_of_resolve h).2 (hstarts.subset hnul), hfits dir hdir⟩
    rw [horigin, hsteps]
    refine Workspace.walk_of_suffix ?_ (Workspace.walk_steps_of_resolve h)
    split
    · exact List.tail_suffix _
    · exact List.suffix_rfl
  have hfind : (find? w start).map (fun path => (w.resolve path).toOption) =
      ((w.directories start).find? (isIn w)).map (fun dir => some (fileName :: dir)) := by
    rw [find?_eq, hdir, Option.bind_some, hsearchable.find?_candidates, horigin, hsteps]
    rfl
  refine ⟨hfind, Workspace.directories_eq h, fun habsolute hdotdot => ?_⟩
  have hroot : w.origin start = [] := if_pos habsolute
  have hall : (w.directoryOf loc).tails.filter [].isSuffixOf = (w.directoryOf loc).tails :=
    List.filter_eq_self.2 fun other _ => List.isSuffixOf_iff_suffix.2 (List.nil_suffix)
  rw [hfind, Workspace.directories_eq h hdotdot, hroot, hall]

/-- A file beside a directory, seen from that directory. A manifest is in both, or in one. -/
def sampleFiles (above inside : Bool) : Workspace where
  root := .dir ([("d", .dir ([("g.json", .file .empty)] ++
      if inside then [(fileName, .file .empty)] else [])), ("f.json", .file .empty)] ++
    if above then [(fileName, .file .empty)] else [])
  current := ["d"]

/-- A manifest is found that is not above the input, where the path goes through its directory and
up again; and one that is above the input is not found, where the path does not come by. -/
theorem find?_not_nearest :
    (∃ w start loc path, w.resolve start = .ok loc ∧ start.isAbsolute = true ∧
      (w.directoryOf loc).tails.find? (isIn w) = none ∧ find? w start = some path ∧
      w.exists? path = true) ∧
    ∃ w start loc dir, w.resolve start = .ok loc ∧ ".." ∉ start.parts ∧
      (w.directoryOf loc).tails.find? (isIn w) = some dir ∧ find? w start = none :=
  ⟨⟨sampleFiles false true, ⟨"/d/../f.json"⟩, ["f.json"], ⟨"/d/refine.toml"⟩, by decide +kernel⟩,
    ⟨sampleFiles true false, ⟨"g.json"⟩, ["g.json", "d"], [], by decide +kernel⟩⟩

theorem find?_nearest_root :
    (sampleFiles true false).resolve ⟨"/d/./g.json"⟩ = .ok ["g.json", "d"] ∧
    (find? (sampleFiles true false) ⟨"/d/./g.json"⟩).map
      (fun path => ((sampleFiles true false).resolve path).toOption) = some (some [fileName]) := by
  have hresolve : (sampleFiles true false).resolve ⟨"/d/./g.json"⟩ = .ok ["g.json", "d"] := by
    decide +kernel
  have hnearest := find?_nearest hresolve fun dir hdir => by
    obtain rfl : ⟨"/d"⟩ = dir := Option.some.inj hdir
    decide
  exact ⟨hresolve, (hnearest.2.2 (by decide) (by decide)).trans (by decide +kernel)⟩

end Manifest

end ContractCheck
