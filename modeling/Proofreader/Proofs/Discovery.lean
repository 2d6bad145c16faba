import Proofreader.Discovery
import Proofreader.Proofs.Disk.Tree
import Proofreader.Proofs.Outcome
import Proofreader.Proofs.Sorting
import Proofreader.Proofs.Text.Order

/-!
# Which documents are found

On a tree, the documents that paths name are found by their places: each place once, and by the
first of the paths that name it.  So it makes no difference to name a document again, be it by
its own path or by that of a directory that it is in.
-/

namespace Proofreader.Discovery

/-! ## What a path names -/

def IsMarkdownFile (d : Disk) (place : Place) : Prop :=
  (∃ bytes, d.lookup? place = some (.file bytes)) ∧ isMarkdownName (place.getLastD []) = true

/-- The way from a path on to a document that it names: no way if it leads to a file, and if it
leads to a directory, a way down to a Markdown file. -/
inductive Names (d : Disk) (p : Path) : Place → Prop where
  | file (h : d.isFile p = true) : Names d p []
  | below {way : Place} (h : d.isDirectory p = true)
      (hfile : IsMarkdownFile d (d.resolve p ++ way)) : Names d p way

theorem Names.isFile_down {d : Disk} {p : Path} {way : Place} (hd : d.IsTree)
    (h : Names d p way) :
    d.resolve (p.down way) = d.resolve p ++ way ∧ d.isFile (p.down way) = true := by
  cases h with
  | file h =>
      rw [Path.down_nil, List.append_nil]
      exact ⟨rfl, h⟩
  | below h hfile =>
      obtain ⟨bytes, hbytes⟩ := hfile.1
      obtain ⟨hresolve, hfind⟩ := hd.find?_down (Disk.isDirectory_iff.1 h) hbytes
      exact ⟨hresolve, Disk.isFile_iff.2 ⟨bytes, hfind⟩⟩

/-! ## The order of ways -/

theorem wayLe_iff {s t : Place} : wayLe s t = true ↔ s ≤ t := by
  induction s generalizing t with
  | nil =>
      have hnil : ([] : Place) ≤ t := not_lt.1 (List.not_lt_nil t)
      simp [wayLe, hnil]
  | cons a s ih =>
      cases t with
      | nil =>
          have hnil : ¬ a :: s ≤ [] := not_le.2 (List.nil_lt_cons a s)
          simp [wayLe, hnil]
      | cons b t =>
          rw [le_iff_lt_or_eq, List.cons_lt_cons_iff, List.cons.injEq, wayLe]
          split
          · rename_i hab
            rw [ih, le_iff_lt_or_eq]
            simp [hab]
          · rename_i hab
            rw [Text.le_iff, le_iff_lt_or_eq]
            simp [hab]

theorem pairwise_sortBy_wayLe {ways : List Place} (h : ways.Nodup) :
    (sortBy wayLe ways).Pairwise (· < ·) := by
  have htotal (s t : Place) : (wayLe s t || wayLe t s) = true := by
    rw [Bool.or_eq_true, wayLe_iff, wayLe_iff]
    exact le_total s t
  have htrans {s t u : Place} (h : wayLe s t = true) (h' : wayLe t u = true) :
      wayLe s u = true := wayLe_iff.2 ((wayLe_iff.1 h).trans (wayLe_iff.1 h'))
  refine (pairwise_sortBy htotal htrans h).imp ?_
  rintro s t ⟨hle, hne⟩
  exact lt_of_le_of_ne (wayLe_iff.1 hle) fun heq => hne (wayLe_iff.2 heq.ge) heq

/-! ## The documents of one path -/

theorem mem_markdownBelow {d : Disk} (hd : d.IsTree) {place way : Place}
    (hplace : d.lookup? place = some .directory) :
    way ∈ markdownBelow d place ↔ IsMarkdownFile d (place ++ way) := by
  rw [markdownBelow, (sortBy_perm wayLe _).mem_iff, List.mem_filter, hd.mem_filesBelow,
    IsMarkdownFile]
  refine and_congr_right ?_
  rintro ⟨bytes, hbytes⟩
  -- a file does not stand at the place of the directory itself
  have hway : way ≠ [] := by
    rintro rfl
    simp [hplace] at hbytes
  rw [List.getLastD_eq_getLast?, List.getLastD_eq_getLast?,
    List.getLast?_append_of_ne_nil place hway]

structure FoundBy (d : Disk) (p : Path) (found : List Path) : Prop where
  mem_iff : ∀ q, q ∈ found ↔ ∃ way, Names d p way ∧ q = p.down way
  sorted : found.Pairwise fun q q' => q.parts < q'.parts

theorem exists_candidates_iff {d : Disk} {p : Path} :
    (∃ found, candidates d p = .ok found) ↔ d.isFile p = true ∨ d.isDirectory p = true := by
  unfold candidates Disk.isFile Disk.isDirectory
  cases d.find? p with
  | none => simp
  | some e => cases e <;> simp

theorem foundBy_of_candidates {d : Disk} (hd : d.IsTree) {p : Path} {found : List Path}
    (h : candidates d p = .ok found) : FoundBy d p found := by
  unfold candidates at h
  cases hp : d.find? p with
  | none => simp [hp] at h
  | some e =>
      cases e with
      | file bytes =>
          have hfile : d.isFile p = true := Disk.isFile_iff.2 ⟨bytes, hp⟩
          obtain rfl : [p] = found := by simpa [hp] using h
          refine ⟨fun q => ?_, List.pairwise_singleton _ p⟩
          rw [List.mem_singleton]
          constructor
          · rintro rfl
            exact ⟨[], .file hfile, (Path.down_nil _).symm⟩
          · rintro ⟨way, hnames, rfl⟩
            cases hnames with
            | file => exact p.down_nil
            | below hdirectory => simp [Disk.isDirectory, hp] at hdirectory
      | directory =>
          have hdirectory : d.isDirectory p = true := Disk.isDirectory_iff.2 hp
          have hplace := (Disk.find?_eq_some_iff.1 hp).2
          obtain rfl : (markdownBelow d (d.resolve p)).map p.down = found := by
            simp only [hp] at h
            exact Except.ok.inj h
          refine ⟨fun q => ?_, ?_⟩
          · simp only [List.mem_map, mem_markdownBelow hd hplace]
            constructor
            · rintro ⟨way, hway, rfl⟩
              exact ⟨way, .below hdirectory hway, rfl⟩
            · rintro ⟨way, hnames, rfl⟩
              cases hnames with
              | file hfile => simp [Disk.isFile, hp] at hfile
              | below _ hway => exact ⟨way, hway, rfl⟩
          · have hnodup := (hd.nodup_filesBelow (d.resolve p)).filter
              fun way => isMarkdownName (way.getLastD [])
            refine List.pairwise_map.2 ((pairwise_sortBy_wayLe hnodup).imp fun hlt => ?_)
            exact List.append_left_lt hlt

theorem FoundBy.nodup {d : Disk} (hd : d.IsTree) {p : Path} {found : List Path}
    (h : FoundBy d p found) : (found.map d.resolve).Nodup := by
  refine List.pairwise_map.2 (h.sorted.imp_of_mem ?_)
  intro q q' hq hq' hlt hsame
  obtain ⟨way, hnames, rfl⟩ := (h.mem_iff q).1 hq
  obtain ⟨way', hnames', rfl⟩ := (h.mem_iff q').1 hq'
  rw [(hnames.isFile_down hd).1, (hnames'.isFile_down hd).1, List.append_right_inj] at hsame
  rw [hsame] at hlt
  exact lt_irrefl _ hlt

theorem FoundBy.mem_places_iff {d : Disk} (hd : d.IsTree) {p : Path} {found : List Path}
    (h : FoundBy d p found) {place : Place} :
    place ∈ found.map d.resolve ↔ ∃ way, Names d p way ∧ place = d.resolve p ++ way := by
  rw [List.mem_map]
  constructor
  · rintro ⟨q, hq, rfl⟩
    obtain ⟨way, hnames, rfl⟩ := (h.mem_iff q).1 hq
    exact ⟨way, hnames, (hnames.isFile_down hd).1⟩
  · rintro ⟨way, hnames, rfl⟩
    exact ⟨p.down way, (h.mem_iff _).2 ⟨way, hnames, rfl⟩, (hnames.isFile_down hd).1⟩

/-! ## The first path to each place -/

section KeepFirst

variable {d : Disk}

theorem keepFirst_congr {seen seen' : List Place} (h : ∀ place, place ∈ seen ↔ place ∈ seen')
    (ps : List Path) : keepFirst d seen ps = keepFirst d seen' ps := by
  induction ps generalizing seen seen' with
  | nil => rfl
  | cons p ps ih =>
      have hcontains : seen.contains (d.resolve p) = seen'.contains (d.resolve p) := by
        rw [Bool.eq_iff_iff, List.contains_iff_mem, List.contains_iff_mem, h]
      have hmore (place : Place) : place ∈ d.resolve p :: seen ↔ place ∈ d.resolve p :: seen' := by
        rw [List.mem_cons, List.mem_cons, h]
      simp only [keepFirst, hcontains, ih h, ih hmore]

theorem keepFirst_append (seen : List Place) (ps qs : List Path) :
    keepFirst d seen (ps ++ qs) =
      keepFirst d seen ps ++ keepFirst d (ps.map d.resolve ++ seen) qs := by
  induction ps generalizing seen with
  | nil => rfl
  | cons p ps ih =>
      rw [List.cons_append, keepFirst, keepFirst]
      cases hseen : seen.contains (d.resolve p) with
      | true =>
          have hmem : d.resolve p ∈ seen := List.contains_iff_mem.1 hseen
          simp only [if_true, ih]
          congr 1
          apply keepFirst_congr
          intro place
          simp only [List.map_cons, List.cons_append, List.mem_cons, List.mem_append]
          constructor
          · exact .inr
          · rintro (rfl | h)
            · exact .inr hmem
            · exact h
      | false =>
          simp only [Bool.false_eq_true, if_false, ih, List.cons_append]
          congr 2
          apply keepFirst_congr
          intro place
          simp only [List.map_cons, List.cons_append, List.mem_cons, List.mem_append]
          exact or_left_comm

theorem keepFirst_of_nodup {seen : List Place} {ps : List Path} (h : (ps.map d.resolve).Nodup) :
    keepFirst d seen ps = ps.filter fun p => !seen.contains (d.resolve p) := by
  induction ps generalizing seen with
  | nil => rfl
  | cons p ps ih =>
      obtain ⟨hnew, hrest⟩ := List.nodup_cons.1 h
      rw [keepFirst]
      cases hseen : seen.contains (d.resolve p) with
      | true => rw [if_pos rfl, ih hrest, List.filter_cons_of_neg (by simpa using hseen)]
      | false =>
          have hfilter : ps.filter (fun q => !(d.resolve p :: seen).contains (d.resolve q)) =
              ps.filter fun q => !seen.contains (d.resolve q) := by
            refine List.filter_congr fun q hq => ?_
            have hne : d.resolve q ≠ d.resolve p := fun heq =>
              hnew (heq ▸ List.mem_map_of_mem hq)
            simp [hne]
          rw [if_neg (by simp), ih hrest, hfilter, List.filter_cons_of_pos (by simpa using hseen)]

theorem mem_places_keepFirst {seen : List Place} {ps : List Path} {place : Place} :
    place ∈ (keepFirst d seen ps).map d.resolve ↔ place ∈ ps.map d.resolve ∧ place ∉ seen := by
  induction ps generalizing seen with
  | nil => simp [keepFirst]
  | cons p ps ih =>
      rw [keepFirst]
      cases hseen : seen.contains (d.resolve p) with
      | true =>
          have hmem : d.resolve p ∈ seen := List.contains_iff_mem.1 hseen
          simp only [if_true, ih, List.map_cons, List.mem_cons]
          constructor
          · rintro ⟨h, hnew⟩
            exact ⟨.inr h, hnew⟩
          · rintro ⟨rfl | h, hnew⟩
            · exact absurd hmem hnew
            · exact ⟨h, hnew⟩
      | false =>
          have hnew : d.resolve p ∉ seen := by simpa using hseen
          simp only [Bool.false_eq_true, if_false, List.map_cons, List.mem_cons, ih, not_or]
          constructor
          · rintro (rfl | ⟨h, -, hplace⟩)
            · exact ⟨.inl rfl, hnew⟩
            · exact ⟨.inr h, hplace⟩
          · rintro ⟨h, hplace⟩
            by_cases heq : place = d.resolve p
            · exact .inl heq
            · exact .inr ⟨h.resolve_left heq, heq, hplace⟩

theorem nodup_keepFirst (seen : List Place) (ps : List Path) :
    ((keepFirst d seen ps).map d.resolve).Nodup := by
  induction ps generalizing seen with
  | nil => exact .nil
  | cons p ps ih =>
      rw [keepFirst]
      split
      · exact ih seen
      · refine List.nodup_cons.2 ⟨fun hmem => ?_, ih _⟩
        exact (mem_places_keepFirst.1 hmem).2 (List.mem_cons_self ..)

theorem keepFirst_sublist (seen : List Place) (ps : List Path) :
    (keepFirst d seen ps).Sublist ps := by
  induction ps generalizing seen with
  | nil => exact .slnil
  | cons p ps ih =>
      rw [keepFirst]
      split
      · exact (ih seen).cons p
      · exact (ih _).cons_cons p

theorem keepFirst_eq_nil {seen : List Place} {ps : List Path} (h : ∀ p ∈ ps, d.resolve p ∈ seen) :
    keepFirst d seen ps = [] := by
  refine List.eq_nil_iff_forall_not_mem.2 fun p hp => ?_
  exact (mem_places_keepFirst.1 (List.mem_map_of_mem hp)).2
    (h p ((keepFirst_sublist seen ps).subset hp))

end KeepFirst

/-! ## The documents of many paths -/

theorem documents_eq_ok_iff {d : Disk} {paths r : List Path} :
    documents d paths = .ok r ↔
      ∃ founds, paths.mapM (candidates d) = .ok founds ∧ r = keepFirst d [] founds.flatten := by
  rw [documents]
  cases paths.mapM (candidates d) with
  | error m => simp [bind, Except.bind]
  | ok founds => simp [bind, Except.bind, pure, Except.pure, eq_comm]

theorem exists_documents_iff {d : Disk} {paths : List Path} :
    (∃ r, documents d paths = .ok r) ↔
      ∀ p ∈ paths, d.isFile p = true ∨ d.isDirectory p = true := by
  simp only [documents_eq_ok_iff, mapM_eq_ok_iff, ← exists_candidates_iff]
  constructor
  · rintro ⟨r, founds, ⟨hall, -⟩, -⟩
    exact hall
  · intro hall
    exact ⟨_, _, ⟨hall, rfl⟩, rfl⟩

abbrev FoundByEach (d : Disk) (founds : List (List Path)) (paths : List Path) : Prop :=
  List.Forall₂ (fun found p => FoundBy d p found) founds paths

theorem foundByEach_of_mapM {d : Disk} (hd : d.IsTree) {paths : List Path}
    {founds : List (List Path)} (h : paths.mapM (candidates d) = .ok founds) :
    FoundByEach d founds paths :=
  (forall₂_of_mapM h).imp fun _ _ => foundBy_of_candidates hd

theorem mem_places_flatten {d : Disk} (hd : d.IsTree) {founds : List (List Path)}
    {paths : List Path} (h : FoundByEach d founds paths) {place : Place} :
    place ∈ founds.flatten.map d.resolve ↔
      ∃ p ∈ paths, ∃ way, Names d p way ∧ place = d.resolve p ++ way := by
  induction h with
  | nil => simp
  | cons hfound _ ih =>
      rw [List.flatten_cons, List.map_append, List.mem_append, ih, hfound.mem_places_iff hd]
      simp only [List.exists_mem_cons_iff]

theorem mem_flatten {d : Disk} {founds : List (List Path)} {paths : List Path}
    (h : FoundByEach d founds paths) {q : Path} :
    q ∈ founds.flatten ↔ ∃ p ∈ paths, ∃ way, Names d p way ∧ q = p.down way := by
  induction h with
  | nil => simp
  | cons hfound _ ih =>
      rw [List.flatten_cons, List.mem_append, ih, hfound.mem_iff]
      simp only [List.exists_mem_cons_iff]

/-- What each path adds to the documents of the paths `earlier`: the documents that it names and
that none of these leads to, in the order of their paths. -/
inductive Shares (d : Disk) : List Path → List Path → List Path → Prop where
  | nil {earlier : List Path} : Shares d earlier [] []
  | cons {earlier paths share rest : List Path} {p : Path}
      (hmem : ∀ q, q ∈ share ↔ ∃ way, Names d p way ∧ q = p.down way ∧
        ∀ p' ∈ earlier, ∀ way', Names d p' way' → d.resolve p' ++ way' ≠ d.resolve p ++ way)
      (hsorted : share.Pairwise fun q q' => q.parts < q'.parts)
      (hrest : Shares d (earlier ++ [p]) paths rest) : Shares d earlier (p :: paths) (share ++ rest)

theorem shares_keepFirst {d : Disk} (hd : d.IsTree) {founds : List (List Path)}
    {paths earlier : List Path} {seen : List Place} (h : FoundByEach d founds paths)
    (hseen : ∀ place, place ∈ seen ↔
      ∃ p ∈ earlier, ∃ way, Names d p way ∧ place = d.resolve p ++ way) :
    Shares d earlier paths (keepFirst d seen founds.flatten) := by
  induction h generalizing earlier seen with
  | nil => exact .nil
  | @cons found p founds paths hfound _ ih =>
      rw [List.flatten_cons, keepFirst_append, keepFirst_of_nodup (hfound.nodup hd)]
      refine .cons (fun q => ?_) (hfound.sorted.sublist List.filter_sublist) (ih fun place => ?_)
      · rw [List.mem_filter, hfound.mem_iff, Bool.not_eq_true', ← Bool.not_eq_true,
          List.contains_iff_mem, hseen]
        constructor
        · rintro ⟨⟨way, hnames, rfl⟩, hnew⟩
          rw [(hnames.isFile_down hd).1] at hnew
          exact ⟨way, hnames, rfl, fun p' hp' way' hnames' heq =>
            hnew ⟨p', hp', way', hnames', heq.symm⟩⟩
        · rintro ⟨way, hnames, rfl, hnew⟩
          refine ⟨⟨way, hnames, rfl⟩, ?_⟩
          rw [(hnames.isFile_down hd).1]
          rintro ⟨p', hp', way', hnames', heq⟩
          exact hnew p' hp' way' hnames' heq.symm
      · rw [List.mem_append, hfound.mem_places_iff hd, hseen]
        simp only [List.mem_append, List.mem_singleton, or_and_right, exists_or, exists_eq_left]
        exact or_comm

/-- A path that adds nothing to others: it is one of them, or it is in a directory among them and
names nothing but Markdown files. -/
inductive Covered (d : Disk) (paths : List Path) (q : Path) : Prop where
  | listed (h : q ∈ paths)
  | inside {p : Path} (hp : p ∈ paths) (hdirectory : d.isDirectory p = true)
      (hinside : d.resolve p <+: d.resolve q) (hthere : d.isFile q = true ∨ d.isDirectory q = true)
      (hmarkdown : ∀ way, Names d q way → IsMarkdownFile d (d.resolve q ++ way))

theorem Covered.places {d : Disk} {paths : List Path} {q : Path} (h : Covered d paths q)
    {way : Place} (hnames : Names d q way) :
    ∃ p ∈ paths, ∃ way', Names d p way' ∧ d.resolve q ++ way = d.resolve p ++ way' := by
  cases h with
  | listed h => exact ⟨q, h, way, hnames, rfl⟩
  | @inside p hp hdirectory hinside _ hmarkdown =>
      obtain ⟨between, hbetween⟩ := hinside
      have hplace : d.resolve q ++ way = d.resolve p ++ (between ++ way) := by
        rw [← hbetween, List.append_assoc]
      refine ⟨p, hp, between ++ way, .below hdirectory ?_, hplace⟩
      rw [← hplace]
      exact hmarkdown way hnames

/-! ## Naming documents again -/

theorem Covered.exists_candidates {d : Disk} {paths : List Path} {q : Path}
    (hpaths : ∀ p ∈ paths, ∃ found, candidates d p = .ok found) (h : Covered d paths q) :
    ∃ found, candidates d q = .ok found := by
  cases h with
  | listed h => exact hpaths q h
  | inside _ _ _ hthere _ => exact exists_candidates_iff.2 hthere

theorem documents_append_covered {d : Disk} (hd : d.IsTree) {paths r more : List Path}
    (h : documents d paths = .ok r) (hmore : ∀ q ∈ more, Covered d paths q) :
    documents d (paths ++ more) = .ok r := by
  obtain ⟨founds, hfounds, rfl⟩ := documents_eq_ok_iff.1 h
  have hall := (mapM_eq_ok_iff.1 hfounds).1
  obtain ⟨founds', hfounds'⟩ : ∃ founds', more.mapM (candidates d) = .ok founds' :=
    ⟨_, mapM_eq_ok_iff.2 ⟨fun q hq => (hmore q hq).exists_candidates hall, rfl⟩⟩
  have hboth : (paths ++ more).mapM (candidates d) = .ok (founds ++ founds') := by
    simp [List.mapM_append, hfounds, hfounds', bind, Except.bind, pure, Except.pure]
  -- the places of the further documents were all seen
  have hnone : keepFirst d (founds.flatten.map d.resolve ++ []) founds'.flatten = [] := by
    refine keepFirst_eq_nil fun q hq => ?_
    obtain ⟨p, hp, way, hnames, hplace⟩ :=
      (mem_places_flatten hd (foundByEach_of_mapM hd hfounds')).1 (List.mem_map_of_mem hq)
    rw [List.append_nil, mem_places_flatten hd (foundByEach_of_mapM hd hfounds), hplace]
    exact (hmore p hp).places hnames
  refine documents_eq_ok_iff.2 ⟨_, hboth, ?_⟩
  rw [List.flatten_append, keepFirst_append, hnone, List.append_nil]

theorem documents_of_files {d : Disk} {files : List Path} (h : ∀ p ∈ files, d.isFile p = true)
    (hdistinct : (files.map d.resolve).Nodup) : documents d files = .ok files := by
  have hfile : ∀ p ∈ files, candidates d p = .ok [p] := by
    intro p hp
    obtain ⟨bytes, hbytes⟩ := Disk.isFile_iff.1 (h p hp)
    simp [candidates, hbytes]
  have heach : files.filterMap (fun p => (candidates d p).toOption) = files.map fun p => [p] := by
    rw [← List.filterMap_eq_map']
    exact List.filterMap_congr fun p hp => by rw [hfile p hp]; rfl
  refine documents_eq_ok_iff.2 ⟨files.map fun p => [p], ?_, ?_⟩
  · exact mapM_eq_ok_iff.2 ⟨fun p hp => ⟨_, hfile p hp⟩, heach.symm⟩
  · have hflatten : (files.map fun p => [p]).flatten = files := by simp [← List.flatMap_def]
    rw [hflatten, keepFirst_of_nodup hdistinct]
    simp

structure Finds (d : Disk) (paths r : List Path) : Prop where
  distinct : (r.map d.resolve).Nodup
  mem_places_iff : ∀ place, place ∈ r.map d.resolve ↔
    ∃ p ∈ paths, ∃ way, Names d p way ∧ place = d.resolve p ++ way
  shares : Shares d [] paths r
  covered : ∀ more, (∀ q ∈ more, Covered d paths q) → documents d (paths ++ more) = .ok r
  again : documents d r = .ok r

/-- On a tree, documents are found unless a path leads nowhere, and they are the right ones. -/
theorem documents_complete {d : Disk} (hd : d.IsTree) (paths : List Path) :
    ((∃ m, documents d paths = .error m) ↔
      ∃ p ∈ paths, d.isFile p = false ∧ d.isDirectory p = false) ∧
    ∀ r, documents d paths = .ok r → Finds d paths r := by
  constructor
  · rw [exists_error_iff, exists_documents_iff]
    simp
  · intro r h
    obtain ⟨founds, hfounds, hr⟩ := documents_eq_ok_iff.1 h
    have heach := foundByEach_of_mapM hd hfounds
    have hdistinct : (r.map d.resolve).Nodup := hr ▸ nodup_keepFirst [] founds.flatten
    refine ⟨hdistinct, fun place => ?_, ?_, fun more => documents_append_covered hd h, ?_⟩
    · rw [hr, mem_places_keepFirst, ← mem_places_flatten hd heach]
      simp
    · rw [hr]
      exact shares_keepFirst hd heach (by simp)
    · refine documents_of_files (fun q hq => ?_) hdistinct
      rw [hr] at hq
      obtain ⟨p, -, way, hnames, rfl⟩ :=
        (mem_flatten heach).1 ((keepFirst_sublist [] founds.flatten).subset hq)
      exact (hnames.isFile_down hd).2

/-- A document is named through the directory below it, then by the directory that it is in; a
directory is named again, and so is a file that is no Markdown file. -/
theorem documents_complete_overlapping :
    let d : Disk :=
      { workingPlace := ["home"]
        entries :=
          [(["home"], .directory), (["home", "docs"], .directory),
            (["home", "docs", "sub"], .directory), (["home", "docs", "z.MD"], .file []),
            (["home", "docs", "sub", "b.Markdown"], .file []),
            (["home", "docs", "note.txt"], .file [])] }
    let paths : List Path := ["docs/sub/../z.MD", "docs", "docs/sub", "docs/note.txt"].map
      fun t => Path.ofText t
    let r : List Path := ["docs/sub/../z.MD", "docs/sub/b.Markdown", "docs/note.txt"].map
      fun t => Path.ofText t
    d.IsTree ∧ documents d paths = .ok r ∧
      ((∃ m, documents d paths = .error m) ↔
        ∃ p ∈ paths, d.isFile p = false ∧ d.isDirectory p = false) ∧
      Finds d paths r := by
  intro d paths r
  have hd : d.IsTree := ⟨by decide +kernel, by decide +kernel, by decide +kernel, by decide +kernel⟩
  have hok : documents d paths = .ok r := by decide +kernel
  obtain ⟨herror, hfinds⟩ := documents_complete hd paths
  exact ⟨hd, hok, herror, hfinds r hok⟩

end Proofreader.Discovery
