import Stencil.Command.Run
import Stencil.Proofs.Lookup
import Stencil.Proofs.Results

/-!
# What a run does to files

A run of the command on files in memory. This file defines:

* `Tree.Extends` : a tree of files with more directories and the same files;
* `Leaves`       : a computation relates the tree that it starts from to the tree that it ends in;
* `Prepares`     : what the files of a tree give for a command, before anything is written.

A run that fails leaves every file as it was (`run_error`). One that succeeds has written what
the template compiles to, to the path that it reports, and no other file is touched
(`run_writes`, `run_changes`).
-/

namespace Stencil
namespace Command

namespace Tree

variable {t t' : Tree} {place other start : List String} {path text : String}

/-! ## Writing, then reading -/

theorem lookup_put (t : Tree) (place other : List String) (text : String) :
    (t.put place text).files.lookup other =
      if other = place then some text else t.files.lookup other := by
  rw [put, List.lookup_append, Lookup.lookup_filter (· != place)]
  by_cases hother : other = place
  · simp [hother]
  · simp [hother, List.lookup_cons, beq_eq_false_iff_ne.2 hother]

theorem entry_put (h : t.entry place ≠ .directory) :
    (t.put place text).entry other = if other = place then .file text else t.entry other := by
  rw [entry, lookup_put]
  by_cases hother : other = place
  · subst hother
    have hdir : ¬ (t.put other text).directories.contains other = true := by
      intro hdir
      exact h (if_pos hdir)
    rw [if_neg hdir, if_pos rfl, if_pos rfl]
  · rw [if_neg hother, if_neg hother]
    rfl

/-- Only directories lead on, and a file that is written is none. -/
theorem follow_put (h : t.entry place ≠ .directory) {components : List (List Char)} :
    (t.put place text).follow start components = .ok other ↔
      t.follow start components = .ok other := by
  induction components generalizing start with
  | nil => rfl
  | cons component rest ih =>
    rw [follow, follow, entry_put h]
    by_cases hstart : start = place
    · subst hstart
      rw [if_pos rfl]
      cases hentry : t.entry start with
      | directory => exact absurd hentry h
      | file | missing => simp
    · rw [if_neg hstart]
      cases t.entry start with
      | directory => simp only [apply_ite (· = Except.ok other), ih]
      | file | missing => rfl

theorem locate_put (h : t.entry place ≠ .directory) :
    (t.put place text).locate path = .ok other ↔ t.locate path = .ok other :=
  follow_put h

theorem read_eq_ok :
    t.read path = .ok text ↔ ∃ place, t.locate path = .ok place ∧ t.entry place = .file text := by
  unfold read
  rw [Results.bind_eq_ok]
  apply exists_congr
  intro place
  cases t.entry place <;> simp

theorem write_eq_ok (h : t.write path text = .ok t') :
    ∃ place, t.locate path = .ok place ∧ t.entry place ≠ .directory ∧ t' = t.put place text := by
  unfold write at h
  split at h
  · cases h
  · rcases Results.bind_eq_ok.1 h with ⟨place, hlocate, h⟩
    refine ⟨place, hlocate, ?_⟩
    cases hentry : t.entry place with
    | directory =>
      rw [hentry] at h
      cases h
    | file | missing =>
      rw [hentry] at h
      cases h
      exact ⟨by simp, rfl⟩

theorem read_write (h : t.write path text = .ok t') : t'.read path = .ok text := by
  obtain ⟨place, hlocate, hentry, rfl⟩ := write_eq_ok h
  rw [read_eq_ok]
  exact ⟨place, (locate_put hentry).2 hlocate, by rw [entry_put hentry, if_pos rfl]⟩

/-- A write is to the file that its path names, and to no other. -/
theorem lookup_write (h : t.write path text = .ok t') (hother : t'.locate path ≠ .ok other) :
    t'.files.lookup other = t.files.lookup other := by
  obtain ⟨place, hlocate, hentry, rfl⟩ := write_eq_ok h
  have hne : other ≠ place := by
    rintro rfl
    exact hother ((locate_put hentry).2 hlocate)
  rw [lookup_put, if_neg hne]

theorem read_write_other {path' text' : String} (h : t.write path text = .ok t')
    (hread : t.read path' = .ok text') (hother : t'.locate path' ≠ t'.locate path) :
    t'.read path' = .ok text' := by
  obtain ⟨place, hlocate, hentry, rfl⟩ := write_eq_ok h
  obtain ⟨place', hlocate', hentry'⟩ := read_eq_ok.1 hread
  have hkept : (t.put place text).locate path' = .ok place' := (locate_put hentry).2 hlocate'
  have hne : place' ≠ place := by
    rintro rfl
    exact hother (hkept.trans ((locate_put hentry).2 hlocate).symm)
  exact read_eq_ok.2 ⟨place', hkept, by rw [entry_put hentry, if_neg hne, hentry']⟩

/-! ## Changes -/

/-- There is one file at each place. -/
def Distinct (t : Tree) : Prop := (t.files.map (·.1)).Nodup

theorem Distinct.put (h : t.Distinct) (place : List String) (text : String) :
    (t.put place text).Distinct := by
  unfold Distinct Tree.put
  rw [List.map_append, List.map_singleton, List.nodup_append_comm, List.singleton_append,
    List.nodup_cons]
  refine ⟨?_, h.sublist (List.filter_sublist.map _)⟩
  intro hmem
  obtain ⟨e, he, hplace⟩ := List.mem_map.1 hmem
  exact bne_iff_ne.1 (List.mem_filter.1 he).2 hplace

theorem distinct_ofFiles (files : List (String × String)) : (ofFiles files).Distinct := by
  unfold ofFiles
  have hnone : ({} : Tree).Distinct := List.nodup_nil
  generalize ({} : Tree) = start at hnone
  induction files generalizing start with
  | nil => exact hnone
  | cons e files ih => exact ih _ (hnone.put _ _)

theorem mem_changes (h : t'.Distinct) {e : String × String} (he : e ∈ t.changes t') :
    ∃ place, pathInside? place = some e.1 ∧ t'.files.lookup place = some e.2 ∧
      t.files.lookup place ≠ some e.2 := by
  obtain ⟨⟨place, text⟩, hfile, hnamed⟩ := List.mem_filterMap.1 (List.mem_mergeSort.1 he)
  obtain ⟨hmem, hchanged⟩ := List.mem_filter.1 hfile
  obtain ⟨path, hpath, rfl⟩ := Option.map_eq_some_iff.1 hnamed
  exact ⟨place, hpath, Lookup.lookup_of_mem h hmem, bne_iff_ne.1 hchanged⟩

/-! ## More directories -/

/-- A tree with the same files and possibly more directories, none where there was anything. -/
structure Extends (t t' : Tree) : Prop where
  files : t'.files = t.files
  entry : ∀ place, t.entry place ≠ .missing → t'.entry place = t.entry place

theorem Extends.refl (t : Tree) : t.Extends t := ⟨rfl, fun _ _ => rfl⟩

theorem Extends.trans {t'' : Tree} (h : t.Extends t') (h' : t'.Extends t'') : t.Extends t'' where
  files := h'.files.trans h.files
  entry place hplace := by
    have hkept := h.entry place hplace
    rw [h'.entry place (by rwa [hkept]), hkept]

/-- Every path names the place that it named. -/
theorem Extends.follow (h : t.Extends t') {components : List (List Char)}
    (hfollow : t.follow start components = .ok place) :
    t'.follow start components = .ok place := by
  induction components generalizing start with
  | nil => exact hfollow
  | cons component rest ih =>
    rw [Tree.follow] at hfollow ⊢
    cases hentry : t.entry start with
    | missing => simp [hentry] at hfollow
    | file text => simp [hentry] at hfollow
    | directory =>
      rw [h.entry start (by simp [hentry]), hentry]
      rw [hentry] at hfollow
      split_ifs at hfollow ⊢ <;> exact ih hfollow

theorem Extends.read (h : t.Extends t') (hread : t.read path = .ok text) :
    t'.read path = .ok text := by
  rw [read_eq_ok] at hread ⊢
  obtain ⟨place, hlocate, hentry⟩ := hread
  exact ⟨place, h.follow hlocate, by rw [h.entry place (by simp [hentry]), hentry]⟩

instance : Std.Refl Extends := ⟨Extends.refl⟩

instance : IsTrans Tree Extends := ⟨fun _ _ _ => Extends.trans⟩

theorem addDir_extends (h : t.addDir path = .ok t') : t.Extends t' := by
  rcases Results.bind_eq_ok.1 h with ⟨place, -, h⟩
  cases hentry : t.entry place with
  | directory | file =>
    rw [hentry] at h
    cases h
  | missing =>
    rw [hentry] at h
    cases h
    refine ⟨rfl, ?_⟩
    intro other hother
    have hne : other ≠ place := by
      rintro rfl
      exact hother hentry
    simp [Tree.entry, hne]

end Tree

/-! ## Steps on a tree -/

section Steps

variable {α β : Type} {t t' t'' : Tree}

/-- The outcome of a step on a tree, and the tree that it ends in. -/
def perform (x : Step (StateM Tree) α) (t : Tree) : Except Failure α × Tree := x.run.run t

theorem run_bind (c : StateM Tree α) (f : α → StateM Tree β) (t : Tree) :
    (c >>= f).run t = (f (c.run t).1).run (c.run t).2 := rfl

theorem run_get (t : Tree) : (get : StateM Tree Tree).run t = (t, t) := rfl

/-- A failed step is the last one. -/
theorem perform_bind (x : Step (StateM Tree) α) (f : α → Step (StateM Tree) β) (t : Tree) :
    perform (x >>= f) t =
      match perform x t with
      | (.ok a, t') => perform (f a) t'
      | (.error e, t') => (.error e, t') := by
  unfold perform
  rw [ExceptT.run_bind, run_bind]
  rcases x.run.run t with ⟨e | a, t'⟩ <;> rfl

theorem perform_bind_eq_ok {x : Step (StateM Tree) α} {f : α → Step (StateM Tree) β} {b : β} :
    perform (x >>= f) t = (.ok b, t'') ↔
      ∃ a t', perform x t = (.ok a, t') ∧ perform (f a) t' = (.ok b, t'') := by
  rw [perform_bind]
  rcases perform x t with ⟨e | a, t'⟩ <;> simp

@[simp]
theorem perform_pure (a : α) (t : Tree) :
    perform (pure a : Step (StateM Tree) α) t = (.ok a, t) := rfl

@[simp]
theorem perform_liftExcept (result : Except Failure α) (t : Tree) :
    perform (liftExcept result) t = (result, t) := by
  cases result <;> rfl

theorem perform_fileStep (message : String) (operation : StateM Tree (Except FileFault α))
    (t : Tree) :
    perform (fileStep message operation) t =
      ((operation.run t).1.mapError fun fault => ⟨message, some (.file fault)⟩,
        (operation.run t).2) := by
  have hlift : perform (liftM operation) t = (.ok (operation.run t).1, (operation.run t).2) := rfl
  rw [fileStep, perform_bind, hlift]
  cases (operation.run t).1 <;> rfl

@[simp]
theorem mapError_eq_ok {ε ε' : Type} {f : ε → ε'} {x : Except ε α} {a : α} :
    x.mapError f = .ok a ↔ x = .ok a := by
  cases x <;> simp [Except.mapError]

@[simp]
theorem perform_read (message path : String) (t : Tree) :
    perform (fileStep message (Tree.fileSystem.read path)) t =
      ((t.read path).mapError fun fault => ⟨message, some (.file fault)⟩, t) :=
  perform_fileStep message _ t

theorem run_makeDir (path : String) (t : Tree) :
    (Tree.fileSystem.makeDir path).run t =
      match t.addDir path with
      | .ok t' => (.ok (), t')
      | .error fault => (.error fault, t) := by
  unfold Tree.fileSystem
  dsimp only
  rw [run_bind, run_get]
  cases t.addDir path <;> rfl

theorem run_write (path text : String) (t : Tree) :
    (Tree.fileSystem.write path text).run t =
      match t.write path text with
      | .ok t' => (.ok (), t')
      | .error fault => (.error fault, t) := by
  unfold Tree.fileSystem
  dsimp only
  rw [run_bind, run_get]
  cases t.write path text <;> rfl

theorem perform_write (message path text : String) (t : Tree) :
    perform (fileStep message (Tree.fileSystem.write path text)) t =
      match t.write path text with
      | .ok t' => (.ok (), t')
      | .error fault => (.error ⟨message, some (.file fault)⟩, t) := by
  rw [perform_fileStep, run_write]
  cases t.write path text <;> rfl

/-! ## What steps do to a tree -/

variable {R : Tree → Tree → Prop}

/-- Whatever tree a computation starts from, it ends in one that is related to it. -/
def Leaves (R : Tree → Tree → Prop) (c : StateM Tree α) : Prop := ∀ t, R t (c.run t).2

theorem Leaves.of_perform {x : Step (StateM Tree) α} {result : Except Failure α}
    (h : Leaves R x.run) (hx : perform x t = (result, t')) : R t t' := by
  have ht := h t
  rwa [show x.run.run t = (result, t') from hx] at ht

theorem Leaves.bind [IsTrans Tree R] {c : StateM Tree α} {f : α → StateM Tree β} (hc : Leaves R c)
    (hf : ∀ a, Leaves R (f a)) : Leaves R (c >>= f) :=
  fun t => trans_of R (hc t) (hf _ _)

theorem fileStep_leaves {message : String} {operation : StateM Tree (Except FileFault α)}
    (h : Leaves R operation) : Leaves R (fileStep message operation).run := by
  intro t
  change R t (perform (fileStep message operation) t).2
  rw [perform_fileStep]
  exact h t

variable [Std.Refl R]

theorem leaves_pure (a : α) : Leaves R (pure a : StateM Tree α) := fun t => refl_of R t

theorem read_leaves (path : String) : Leaves R (Tree.fileSystem.read path) :=
  fun t => refl_of R t

theorem liftExcept_leaves (result : Except Failure α) :
    Leaves R (liftExcept result : Step (StateM Tree) α).run := by
  cases result <;> exact leaves_pure _

variable [IsTrans Tree R]

theorem Leaves.step {x : Step (StateM Tree) α} {f : α → Step (StateM Tree) β}
    (hx : Leaves R x.run) (hf : ∀ a, Leaves R (f a).run) : Leaves R (x >>= f).run := by
  rw [ExceptT.run_bind]
  refine Leaves.bind hx ?_
  rintro (e | a)
  · exact leaves_pure _
  · exact hf a

theorem loadConfig_leaves (config : Option String) :
    Leaves R (loadConfig Tree.fileSystem config).run := by
  cases config with
  | none => exact leaves_pure _
  | some path =>
    refine Leaves.step (fileStep_leaves (read_leaves path)) ?_
    intro text
    cases Options.ofJson text <;> exact leaves_pure _

theorem loadPartial_leaves (o : Options) (argument : String) :
    Leaves R (loadPartial Tree.fileSystem o argument).run := by
  unfold loadPartial
  cases splitPartial argument with
  | none => exact leaves_pure _
  | some p => exact Leaves.step (fileStep_leaves (read_leaves _)) fun _ => leaves_pure _

theorem loadOptions_leaves (a : Arguments) : Leaves R (loadOptions Tree.fileSystem a).run := by
  refine Leaves.step (loadConfig_leaves a.config) ?_
  intro o
  generalize overrideOptions a o = o
  induction a.partials generalizing o with
  | nil => exact leaves_pure _
  | cons argument rest ih => exact Leaves.step (loadPartial_leaves o argument) ih

theorem prepare_leaves (template : String) (a : Arguments) :
    Leaves R (prepare Tree.fileSystem template a).run := by
  refine Leaves.step (fileStep_leaves (read_leaves template)) fun text => ?_
  refine Leaves.step (loadOptions_leaves a) fun options => ?_
  refine Leaves.step (liftExcept_leaves _) fun out => ?_
  refine Leaves.step (liftExcept_leaves _) fun source => ?_
  exact leaves_pure _

theorem makeDir_leaves (path : String) : Leaves Tree.Extends (makeDir Tree.fileSystem path) := by
  refine Leaves.bind ?_ ?_
  · intro t
    rw [run_makeDir]
    cases h : t.addDir path with
    | ok t' => exact Tree.addDir_extends h
    | error fault => exact Tree.Extends.refl t
  · rintro (fault | _)
    · exact Leaves.bind (fun t => .refl t) fun _ => leaves_pure _
    · exact leaves_pure _

theorem makeDirs_leaves (path : String) : Leaves Tree.Extends (makeDirs Tree.fileSystem path) := by
  unfold makeDirs
  generalize path.length + 1 = fuel
  induction fuel generalizing path with
  | zero => exact leaves_pure _
  | succ fuel ih =>
    unfold makeDirsUpTo
    split
    · exact leaves_pure _
    refine Leaves.bind (makeDir_leaves path) ?_
    intro result
    split
    · split
      · exact leaves_pure _
      · refine Leaves.bind (ih _) ?_
        rintro (fault | _)
        · exact leaves_pure _
        · exact makeDir_leaves path
    · exact leaves_pure _

end Steps

/-! ## A run -/

variable {t t' before after : Tree} {template out source : String} {a : Arguments}
  {failure : Failure}

/-- What the files of a tree give for a command: where its source goes, and the source. -/
def Prepares (t : Tree) (template : String) (a : Arguments) (out source : String) : Prop :=
  ∃ text options, t.read template = .ok text ∧
    perform (loadOptions Tree.fileSystem a) t = (.ok options, t) ∧
    outputPath template a.out = .ok out ∧ compile options text = .ok source

theorem prepare_eq_ok :
    perform (prepare Tree.fileSystem template a) t = (.ok (out, source), t') ↔
      t' = t ∧ Prepares t template a out source := by
  simp only [prepare, perform_bind_eq_ok, perform_read, perform_liftExcept, perform_pure,
    Prod.mk.injEq, mapError_eq_ok, Except.ok.injEq]
  constructor
  · rintro ⟨text, _, ⟨htext, rfl⟩, options, u, hload, _, _, ⟨hout, rfl⟩, _, _, ⟨hsource, rfl⟩,
      ⟨rfl, rfl⟩, rfl⟩
    obtain rfl : t = u := (loadOptions_leaves (R := Eq) a).of_perform hload
    exact ⟨rfl, text, options, htext, hload, hout, hsource⟩
  · rintro ⟨rfl, text, options, htext, hload, hout, hsource⟩
    exact ⟨text, _, ⟨htext, rfl⟩, options, _, hload, _, _, ⟨hout, rfl⟩, _, _, ⟨hsource, rfl⟩,
      ⟨rfl, rfl⟩, rfl⟩

/-- A file is written last, after the directories that it lies in are there. -/
theorem deliver_cases {result : Except Failure Unit}
    (h : perform (deliver Tree.fileSystem out source) t = (result, t')) :
    (result = .ok () ∧ ∃ made, t.Extends made ∧ made.write out source = .ok t') ∨
      (∃ failure, result = .error failure) ∧ t.Extends t' := by
  have hwrite : ∀ made, t.Extends made →
      perform (fileStep ("Failed to write " ++ out) (Tree.fileSystem.write out source)) made =
        (result, t') →
      (result = .ok () ∧ ∃ made, t.Extends made ∧ made.write out source = .ok t') ∨
        (∃ failure, result = .error failure) ∧ t.Extends t' := by
    intro made hmade hstep
    rw [perform_write] at hstep
    split at hstep
    · next hok =>
      cases hstep
      exact .inl ⟨rfl, made, hmade, hok⟩
    · cases hstep
      exact .inr ⟨⟨_, rfl⟩, hmade⟩
  unfold deliver at h
  dsimp only at h
  generalize (PathName.parent? out).getD "" = directory at h
  split at h
  · rw [perform_bind] at h
    split at h
    · next made hmade =>
      exact hwrite made ((fileStep_leaves (makeDirs_leaves directory)).of_perform hmade) h
    · next e made hmade =>
      cases h
      exact .inr ⟨⟨e, rfl⟩, (fileStep_leaves (makeDirs_leaves directory)).of_perform hmade⟩
  · exact hwrite t (.refl t) h

/-- A run that fails has written nothing; there may be directories that were not there before. -/
theorem run_error (h : perform (run Tree.fileSystem template a) before = (.error failure, after)) :
    before.Extends after := by
  unfold run at h
  rw [perform_bind] at h
  split at h
  · next p t hprepare =>
    obtain ⟨rfl, -⟩ := prepare_eq_ok.1 hprepare
    rw [perform_bind] at h
    split at h
    · cases h
    · next e t' hdeliver =>
      cases h
      rcases deliver_cases hdeliver with ⟨hresult, -⟩ | ⟨-, hext⟩
      · cases hresult
      · exact hext
  · next e t hprepare =>
    cases h
    exact (prepare_leaves template a).of_perform hprepare

theorem run_eq_ok (h : perform (run Tree.fileSystem template a) before = (.ok out, after)) :
    ∃ source made, Prepares before template a out source ∧ before.Extends made ∧
      made.write out source = .ok after := by
  unfold run at h
  obtain ⟨⟨out', source⟩, t, hprepare, hrest⟩ := perform_bind_eq_ok.1 h
  obtain ⟨rfl, hprepared⟩ := prepare_eq_ok.1 hprepare
  obtain ⟨_, t', hdeliver, hreturn⟩ := perform_bind_eq_ok.1 hrest
  rw [perform_pure] at hreturn
  cases hreturn
  rcases deliver_cases hdeliver with ⟨-, made, hext, hwrite⟩ | ⟨⟨_, hresult⟩, -⟩
  · exact ⟨source, made, hprepared, hext, hwrite⟩
  · cases hresult

/-- A run that succeeds has written the compiled template to the path that it reports, and has
left every other file as it was, in its place and for every path that it was read by. -/
theorem run_writes (h : perform (run Tree.fileSystem template a) before = (.ok out, after)) :
    (∃ source, Prepares before template a out source ∧ after.read out = .ok source) ∧
      (∀ place, after.locate out ≠ .ok place →
        after.files.lookup place = before.files.lookup place) ∧
      ∀ path text, before.read path = .ok text → after.locate path ≠ after.locate out →
        after.read path = .ok text := by
  obtain ⟨source, made, hprepared, hext, hwrite⟩ := run_eq_ok h
  refine ⟨⟨source, hprepared, Tree.read_write hwrite⟩, ?_, ?_⟩
  · intro place hplace
    rw [Tree.lookup_write hwrite hplace, hext.files]
  · intro path text hread hpath
    exact Tree.read_write_other hwrite (hext.read hread) hpath

/-- The only file that a run changes is the one that it reports. -/
theorem run_changes {result : Except Failure String} (hbefore : before.Distinct)
    (h : perform (run Tree.fileSystem template a) before = (result, after)) {e : String × String}
    (he : e ∈ before.changes after) :
    ∃ out place, result = .ok out ∧ after.locate out = .ok place ∧
      Tree.pathInside? place = some e.1 ∧ after.read out = .ok e.2 := by
  cases result with
  | error failure =>
    -- directories that were made on the way are no changes
    have hfiles := (run_error h).files
    have hafter : after.Distinct := by
      unfold Tree.Distinct
      rwa [hfiles]
    obtain ⟨place, -, hfile, hchanged⟩ := Tree.mem_changes hafter he
    rw [hfiles] at hfile
    exact absurd hfile hchanged
  | ok out =>
    obtain ⟨source, made, -, hext, hwrite⟩ := run_eq_ok h
    obtain ⟨place, hlocate, hentry, rfl⟩ := Tree.write_eq_ok hwrite
    have hmade : made.Distinct := by
      unfold Tree.Distinct
      rwa [hext.files]
    obtain ⟨other, hpath, hfile, hchanged⟩ := Tree.mem_changes (hmade.put place source) he
    obtain rfl : other = place := by
      by_contra hother
      rw [Tree.lookup_put, if_neg hother, hext.files] at hfile
      exact hchanged hfile
    rw [Tree.lookup_put, if_pos rfl] at hfile
    cases hfile
    exact ⟨out, other, rfl, (Tree.locate_put hentry).2 hlocate, hpath, Tree.read_write hwrite⟩

end Command
end Stencil
