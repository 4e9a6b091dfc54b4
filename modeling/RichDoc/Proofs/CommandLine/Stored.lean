import Mathlib.Tactic.Common
import RichDoc.CommandLine.Store

/-!
# What a store keeps

A text that is put under a location is read there again, and every other
location keeps what it had (`text?_put`). A store only gains directories
by it, and a path that could be followed leads to the same place
afterwards (`locate?_put`): so a text that was written to a path is found
under that path (`read?_of_write?`). This holds of every path, from the
root or from the working directory, and from the root every file has one
(`read?_pathTo`). The directories above a file that is not there yet can be
made, so saving a configuration comes to something
(`exists_saveConfig?_pathTo`).

A run on a store is a chain of operations. `run_bind` takes such a chain
apart, and each operation has its effect stated once. Those that load a
configuration only look (`loadConfig_run`).
-/

namespace RichDoc

theorem lookup_replaced {α β : Type} [BEq α] [LawfulBEq α] [DecidableEq α] (key other : α)
    (value : β) (pairs : List (α × β)) :
    (pairs.map fun (k, v) => if k = key then (k, value) else (k, v)).lookup other =
      if other = key then (pairs.lookup other).map fun _ => value else pairs.lookup other := by
  induction pairs with
  | nil => simp
  | cons pair rest ih =>
      obtain ⟨k, v⟩ := pair
      by_cases hother : other = k
      · subst hother
        by_cases hk : other = key <;> simp [hk]
      · have hne : (other == k) = false := beq_eq_false_iff_ne.mpr hother
        have hcons (value : β) (rest : List (α × β)) :
            ((k, value) :: rest).lookup other = rest.lookup other := by
          rw [List.lookup_cons, hne]
        rw [List.map_cons, hcons, ← ih]
        by_cases hk : k = key
        · simp only [if_pos hk, hcons]
        · simp only [if_neg hk, hcons]

namespace Store

variable {store after : Store} {location other : Location} {path text : String}

/-! ## Texts -/

theorem file?_put :
    (store.put location text).file? other =
      if other = location then some text else store.file? other := by
  unfold put
  cases hold : store.file? location with
  | some old =>
      refine (lookup_replaced location other text store.files).trans ?_
      split
      next h =>
          change (store.file? other).map _ = _
          rw [h, hold, Option.map_some]
      next => rfl
  | none =>
      refine List.lookup_append.trans ?_
      change (store.file? other).or _ = _
      by_cases h : other = location
      · rw [h, hold]
        simp
      · have hne : (other == location) = false := beq_eq_false_iff_ne.mpr h
        simp [h, hne, List.lookup_cons]

theorem file?_of_text? (h : store.text? location = some text) :
    store.file? location = some text := by
  unfold text? at h
  split at h
  · cases h
  · exact h

theorem text?_put :
    (store.put location text).text? other =
      if other = location then some text else store.text? other := by
  have hlisted : (other ∈ (store.put location text).undecodable) ↔
      other ∈ store.undecodable ∧ other ≠ location := by
    simp [put, List.mem_filter]
  unfold text?
  rw [file?_put]
  by_cases h : other = location
  · rw [if_neg (mt hlisted.mp (mt And.right (not_not_intro h))), if_pos h, if_pos h]
  · rw [if_neg h, if_neg h]
    simp only [hlisted, h, not_false_eq_true, and_true, ne_eq]

/-! ## Paths -/

theorem isDirectory_iff :
    store.isDirectory location = true ↔ location <+: store.workingDirectory ∨
      (∃ made ∈ store.directories, location <+: made) ∨
      ∃ file text, (file, text) ∈ store.files ∧ location <+: file ∧ location ≠ file := by
  simp only [isDirectory, Bool.or_eq_true, List.any_eq_true, Bool.and_eq_true, bne_iff_ne,
    List.isPrefixOf_iff_prefix, Prod.exists, or_assoc]

theorem isDirectory_put (h : store.isDirectory other = true) :
    (store.put location text).isDirectory other = true := by
  rw [isDirectory_iff] at h ⊢
  refine h.imp_right (Or.imp_right ?_)
  rintro ⟨file, old, hfile, hin⟩
  unfold put
  dsimp only
  split
  · refine ⟨file, if file = location then text else old, ?_, hin⟩
    refine List.mem_map.mpr ⟨(file, old), hfile, ?_⟩
    by_cases h : file = location <;> simp [h]
  · exact ⟨file, old, List.mem_append_left _ hfile, hin⟩

theorem isDirectory_root : store.isDirectory [] = true :=
  isDirectory_iff.mpr (.inl List.nil_prefix)

/-- Above a directory are directories. -/
theorem isDirectory_of_prefix (h : store.isDirectory location = true)
    (habove : other <+: location) : store.isDirectory other = true := by
  rw [isDirectory_iff] at h ⊢
  obtain hworking | ⟨made, hmade, hin⟩ | ⟨file, text, hfile, hin, hne⟩ := h
  · exact .inl (habove.trans hworking)
  · exact .inr (.inl ⟨made, hmade, habove.trans hin⟩)
  · refine .inr (.inr ⟨file, text, hfile, habove.trans hin, ?_⟩)
    rintro rfl
    exact hne (hin.eq_of_length_le habove.length_le)

/-- A path that can be followed leads to the same place where there are more directories. -/
theorem walk_mono (hmore : ∀ other, store.isDirectory other = true → after.isDirectory other = true)
    {names : List String} {place : Location} (h : store.walk location names = some place) :
    after.walk location names = some place := by
  induction names generalizing location with
  | nil => exact h
  | cons name rest ih =>
      rw [walk] at h ⊢
      split at h
      · cases h
      next hdir =>
          rw [if_neg (by simp_all)]
          split at h
          next hstay =>
              rw [if_pos hstay]
              exact ih h
          next hstay =>
              rw [if_neg hstay]
              split at h
              next hup =>
                  rw [if_pos hup]
                  exact ih h
              next hup =>
                  rw [if_neg hup]
                  exact ih h

theorem locate?_put {place : Location} (h : store.locate? path = some place) :
    (store.put location text).locate? path = some place := by
  unfold locate? at h ⊢
  split at h
  next hpath =>
      rw [if_pos hpath]
      exact walk_mono (fun _ => isDirectory_put) h
  · cases h

/-- A name that leads down to a file or directory. -/
structure IsName (name : String) : Prop where
  not_stay : name ≠ "" ∧ name ≠ "."
  not_up : name ≠ ".."
  chars : '/' ∉ name.toList ∧ '\x00' ∉ name.toList

instance (name : String) : Decidable (IsName name) :=
  decidable_of_iff ((name ≠ "" ∧ name ≠ ".") ∧ name ≠ ".." ∧
      '/' ∉ name.toList ∧ '\x00' ∉ name.toList)
    ⟨fun ⟨hstay, hup, hchars⟩ => ⟨hstay, hup, hchars⟩,
      fun ⟨hstay, hup, hchars⟩ => ⟨hstay, hup, hchars⟩⟩

/-- The path that leads from the root down to a location. -/
def pathTo (location : Location) : String := "/" ++ "/".intercalate location

theorem walk_names {names : List String} (hnames : ∀ name ∈ names, IsName name)
    (hdirs : ∀ front name rest, names = front ++ name :: rest →
      store.isDirectory (location ++ front) = true) :
    store.walk location names = some (location ++ names) := by
  induction names generalizing location with
  | nil => rw [walk, List.append_nil]
  | cons name rest ih =>
      rw [List.forall_mem_cons] at hnames
      obtain ⟨⟨hstay, hup, -⟩, hrest⟩ := hnames
      have hdir : store.isDirectory location = true := by
        have h := hdirs [] name rest rfl
        rwa [List.append_nil] at h
      rw [walk, hdir, if_neg (by decide), if_neg (by simp [hstay]), if_neg hup,
        ih hrest fun front next behind h => ?_, List.append_assoc, List.singleton_append]
      have h := hdirs (name :: front) next behind (by rw [h, List.cons_append])
      rwa [List.append_cons] at h

theorem not_mem_intercalate {c : Char} {sign : List Char} {parts : List (List Char)}
    (hsign : c ∉ sign) (hparts : ∀ part ∈ parts, c ∉ part) : c ∉ sign.intercalate parts := by
  induction parts with
  | nil => simp
  | cons part rest ih =>
      rw [List.forall_mem_cons] at hparts
      cases rest with
      | nil => rw [List.intercalate_singleton]; exact hparts.1
      | cons next rest =>
          rw [List.intercalate_cons_cons, List.mem_append, List.mem_append, not_or, not_or]
          exact ⟨⟨hparts.1, hsign⟩, ih hparts.2⟩

theorem isPath_pathTo (hnames : ∀ name ∈ location, IsName name) :
    isPath (pathTo location) = true := by
  have hnull : '\x00' ∉ (pathTo location).toList := by
    rw [pathTo, String.toList_append, String.toList_intercalate, List.mem_append, not_or]
    refine ⟨by decide, not_mem_intercalate (by decide) ?_⟩
    rw [List.forall_mem_map]
    exact fun name hname => (hnames name hname).chars.2
  have hfilled : (pathTo location).isEmpty = false := by
    rw [String.isEmpty_eq_false_iff, ← String.toList_inj.ne, pathTo, String.toList_append]
    exact List.cons_ne_nil _ _
  simp [isPath, hfilled, hnull]

theorem namesIn_pathTo (hnames : ∀ name ∈ location, IsName name) (hne : location ≠ []) :
    namesIn (pathTo location) = "" :: location := by
  have htext : (pathTo location).toList =
      ['/'].intercalate (([] : List Char) :: location.map String.toList) := by
    obtain ⟨name, rest, rfl⟩ := List.exists_cons_of_ne_nil hne
    rw [pathTo, String.toList_append, String.toList_intercalate, List.map_cons,
      List.intercalate_cons_cons]
    rfl
  have hslash : ∀ cs ∈ ([] : List Char) :: location.map String.toList, '/' ∉ cs := by
    simp only [List.forall_mem_cons, List.forall_mem_map]
    exact ⟨List.not_mem_nil, fun name hname => (hnames name hname).chars.1⟩
  have hback : String.ofList ∘ String.toList = id := funext fun _ => String.ofList_toList
  rw [namesIn, htext, List.splitOn_intercalate _ hslash (List.cons_ne_nil _ _), List.map_cons,
    List.map_map, hback, List.map_id]

/-- Above a file are directories. -/
theorem isDirectory_of_file? {front rest : Location} {name old : String}
    (h : store.file? (front ++ name :: rest) = some old) : store.isDirectory front = true := by
  obtain ⟨before, after, hfiles, -⟩ := List.lookup_eq_some_iff.mp h
  refine isDirectory_iff.mpr (.inr (.inr ⟨front ++ name :: rest, old, ?_, ?_, by simp⟩))
  · rw [hfiles]
    exact List.mem_append_right _ List.mem_cons_self
  · exact List.prefix_append _ _

theorem startOf_pathTo : store.startOf (pathTo location) = [] := by
  rw [startOf, pathTo, String.toList_append]
  rfl

/-- The path to a location leads there if directories are above it. -/
theorem locate?_pathTo (hnames : ∀ name ∈ location, IsName name) (hne : location ≠ [])
    (hdirs : ∀ front name rest, location = front ++ name :: rest →
      store.isDirectory front = true) :
    store.locate? (pathTo location) = some location := by
  rw [locate?, if_pos (isPath_pathTo hnames), startOf_pathTo, namesIn_pathTo hnames hne, walk,
    isDirectory_root, if_neg (by decide), if_pos (by decide)]
  exact walk_names hnames hdirs

/-- **Every file is found from the root**, wherever the working directory is. -/
theorem read?_pathTo (hnames : ∀ name ∈ location, IsName name) (hne : location ≠ [])
    (h : store.text? location = some text) : store.read? (pathTo location) = some text := by
  have hlocate : store.locate? (pathTo location) = some location := by
    refine locate?_pathTo hnames hne fun front name rest hlocation => ?_
    rw [hlocation] at h
    exact isDirectory_of_file? (file?_of_text? h)
  rw [read?, hlocate, Option.bind_some, h]

theorem write?_eq_some_iff :
    store.write? path text = some after ↔
      ∃ location, store.locate? path = some location ∧ store.mayWrite location = true ∧
        after = store.put location text := by
  unfold write?
  cases hl : store.locate? path with
  | none => simp
  | some location =>
      cases hw : store.mayWrite location <;> simp [hw, @eq_comm _ after]

/-- A text that was written to a path is the text of the file at that path. -/
theorem read?_of_write? (h : store.write? path text = some after) :
    after.read? path = some text := by
  obtain ⟨location, hl, -, rfl⟩ := write?_eq_some_iff.mp h
  rw [read?, locate?_put hl, Option.bind_some, text?_put, if_pos rfl]

theorem exists?_of_read? (h : store.read? path = some text) : store.exists? path = true := by
  obtain ⟨location, hl, htext⟩ := Option.bind_eq_some_iff.mp h
  simp only [exists?, hl, file?_of_text? htext, Option.isSome_some, Bool.true_or]

/-! ## Saving -/

theorem isDirectory_made :
    { store with directories := store.directories ++ [location] }.isDirectory other = true ↔
      store.isDirectory other = true ∨ other <+: location := by
  simp only [isDirectory_iff, List.mem_append, List.mem_singleton, or_and_right, exists_or,
    exists_eq_left]
  rw [or_right_comm (b := other <+: location), ← or_assoc]

/-- Below a directory others can be made where no file stands and something may be added, and then
nothing else is a directory that was none. -/
theorem exists_makeDirectories {names : List String} (hnames : ∀ name ∈ names, IsName name)
    (hdir : store.isDirectory location = true)
    (hfree : ∀ front name, front ++ [name] <+: names →
      store.file? (location ++ (front ++ [name])) = none ∧ location ++ front ∉ store.readOnly) :
    ∃ directories, store.makeDirectories location names = some { store with directories } ∧
      ∀ other, { store with directories }.isDirectory other = true ↔
        store.isDirectory other = true ∨ other <+: location ++ names := by
  induction names generalizing store location with
  | nil =>
      refine ⟨store.directories, rfl, fun other => (or_iff_left_of_imp ?_).symm⟩
      rw [List.append_nil]
      exact isDirectory_of_prefix hdir
  | cons name rest ih =>
      rw [List.forall_mem_cons] at hnames
      obtain ⟨⟨hstay, hup, -⟩, hrest⟩ := hnames
      have hfree' (front : List String) (next : String) (h : front ++ [next] <+: rest) :
          store.file? (location ++ [name] ++ (front ++ [next])) = none ∧
            location ++ [name] ++ front ∉ store.readOnly := by
        have h := hfree (name :: front) next ((List.prefix_cons_inj name).mpr h)
        rwa [List.cons_append, List.append_cons location name (front ++ [next]),
          List.append_cons location name front] at h
      rw [makeDirectories, if_neg (by simp [hstay]), if_neg hup,
        List.append_cons location name rest]
      by_cases hthere : store.isDirectory (location ++ [name]) = true
      · rw [if_pos hthere]
        exact ih hrest hthere hfree'
      · obtain ⟨hnone, hwritable⟩ := hfree [] name (List.prefix_append [name] rest)
        rw [List.append_nil] at hwritable
        rw [if_neg hthere, if_neg (by simp_all)]
        have hadded : { store with directories := store.directories ++ [location ++ [name]]
            }.isDirectory (location ++ [name]) = true :=
          isDirectory_made.mpr (.inr (List.prefix_refl _))
        obtain ⟨directories, hmade, hiff⟩ := ih hrest hadded hfree'
        refine ⟨directories, hmade, fun other => (hiff other).trans ?_⟩
        rw [isDirectory_made, or_assoc]
        exact or_congr_right (or_iff_right_of_imp fun h => h.trans (List.prefix_append _ _))

theorem directoryNames_pathTo {last : String} (hnames : ∀ name ∈ location ++ [last], IsName name) :
    directoryNames (pathTo (location ++ [last])) = "" :: location := by
  have hstay := (hnames last (List.mem_append_right _ List.mem_cons_self)).not_stay
  rw [directoryNames, namesIn_pathTo hnames (List.append_ne_nil_of_right_ne_nil _ (by simp)),
    ← List.cons_append, List.reverse_append, List.reverse_singleton, List.singleton_append,
    List.dropWhile_cons_of_neg (by simp [hstay]), List.tail_cons, List.reverse_reverse]

/-- **A configuration can be saved anywhere** but in place of a directory, below a file or where
nothing may be written. -/
theorem exists_saveConfig?_pathTo {last : String} {config : Config}
    (hnames : ∀ name ∈ location ++ [last], IsName name)
    (hfile : store.isDirectory (location ++ [last]) = false)
    (hfree : ∀ above, above <+: location → above ≠ [] → store.file? above = none)
    (hwritable : ∀ above, above <+: location ++ [last] → above ∉ store.readOnly) :
    ∃ saved, store.saveConfig? (pathTo (location ++ [last])) config = some saved := by
  obtain ⟨directories, hmade, hiff⟩ : ∃ directories,
      store.makeDirectories [] location = some { store with directories } ∧
        ∀ other, { store with directories }.isDirectory other = true ↔
          store.isDirectory other = true ∨ other <+: location := by
    refine exists_makeDirectories (fun name h => hnames name (List.mem_append_left _ h))
      isDirectory_root fun front next h => ?_
    exact ⟨hfree _ h (by simp), hwritable _
      (((List.prefix_append front [next]).trans h).trans (List.prefix_append _ _))⟩
  have hlocate : { store with directories }.locate? (pathTo (location ++ [last])) =
      some (location ++ [last]) := by
    refine locate?_pathTo hnames (by simp) fun front next rest h => (hiff front).mpr (.inr ?_)
    have habove : front <+: location ++ [last] := ⟨next :: rest, h.symm⟩
    refine (List.prefix_concat_iff.mp habove).resolve_left ?_
    rintro rfl
    simp at h
  have hmay : { store with directories }.mayWrite (location ++ [last]) = true := by
    have hnone : { store with directories }.isDirectory (location ++ [last]) = false := by
      rw [Bool.eq_false_iff, ne_eq, hiff, hfile]
      rintro (h | h)
      · cases h
      · exact absurd h.length_le (by simp)
    have hthere := hwritable _ (List.prefix_refl _)
    have habove := hwritable location (List.prefix_append _ _)
    rw [mayWrite, hnone, List.dropLast_concat]
    split <;> simpa
  refine ⟨_, Option.bind_eq_some_iff.mpr ⟨{ store with directories }, ?_,
    write?_eq_some_iff.mpr ⟨_, hlocate, hmay, rfl⟩⟩⟩
  rw [startOf_pathTo, directoryNames_pathTo hnames, makeDirectories, if_pos (by decide)]
  exact hmade

/-! ## Runs -/

section

variable {α β : Type}

theorem run_bind (x : ExceptT RunError (StateM Store) α)
    (f : α → ExceptT RunError (StateM Store) β) (store : Store) :
    (x >>= f).run.run store =
      match x.run.run store with
      | (.ok a, after) => (f a).run.run after
      | (.error cause, after) => (.error cause, after) := by
  rw [ExceptT.run_bind, StateT.run_bind]
  obtain ⟨_ | _, _⟩ := x.run.run store <;> rfl

theorem run_lift (x : StateM Store α) (store : Store) :
    (liftM x : ExceptT RunError (StateM Store) α).run.run store =
      (.ok (x.run store).1, (x.run store).2) := rfl

theorem run_mk (result : Except RunError α) (store : Store) :
    (ExceptT.mk (pure result) : ExceptT RunError (StateM Store) α).run.run store =
      (result, store) := rfl

theorem run_exists? : (system.exists? path).run store = (store.exists? path, store) := rfl

theorem run_readFile : (system.readFile path).run store = (store.read? path, store) := rfl

theorem run_readInput : system.readInput.run store = (store.input, store) := rfl

theorem run_writeFile :
    (system.writeFile path text).run store =
      match store.write? path text with
      | some after => (true, after)
      | none => (false, store) := by
  change ((match store.write? path text with
    | some after => do set after; return true
    | none => return false : StateM Store Bool)).run store = _
  cases store.write? path text <;> rfl

end

/-! ## Configurations -/

/-- What loading yields, and that it only looks at the store. -/
theorem run_loadConfig (store : Store) (path : String) :
    (RichDoc.loadConfig system path).run.run store =
      (if store.exists? path then
        match store.read? path with
        | none => .error (.config (.unreadable path))
        | some text => ((Config.parse path text).map some).mapError .config
      else .ok none, store) := by
  simp only [RichDoc.loadConfig, run_bind, run_lift, run_exists?]
  cases store.exists? path with
  | false => rfl
  | true =>
      simp only [Bool.not_true, Bool.false_eq_true, if_false, if_true, run_bind, run_lift,
        run_readFile]
      cases store.read? path with
      | none => rfl
      | some text => cases hparse : Config.parse path text <;> simp only [hparse] <;> rfl

theorem loadConfig_run (store : Store) (path : String) :
    (RichDoc.loadConfig system path).run.run store = (store.loadConfig path, store) := by
  rw [loadConfig, run_loadConfig]

theorem loadConfig_of_not_exists? (h : store.exists? path = false) :
    store.loadConfig path = .ok none :=
  (congrArg Prod.fst (run_loadConfig store path)).trans (if_neg (Bool.eq_false_iff.mp h))

theorem loadConfig_of_exists? (h : store.exists? path = true) :
    store.loadConfig path =
      match store.read? path with
      | none => .error (.config (.unreadable path))
      | some text => ((Config.parse path text).map some).mapError .config :=
  (congrArg Prod.fst (run_loadConfig store path)).trans (if_pos h)

theorem loadConfig_eq_none_iff : store.loadConfig path = .ok none ↔ store.exists? path = false := by
  cases hexists : store.exists? path with
  | false => simp only [loadConfig_of_not_exists? hexists]
  | true =>
      rw [loadConfig_of_exists? hexists]
      cases store.read? path with
      | none => simp
      | some text =>
          cases hparse : Config.parse path text <;> simp [Except.map, Except.mapError, hparse]

theorem loadConfig_eq_some_iff {config : Config} :
    store.loadConfig path = .ok (some config) ↔
      ∃ text, store.read? path = some text ∧ Config.parse path text = .ok config := by
  cases hread : store.read? path with
  | none =>
      cases hexists : store.exists? path with
      | false => simp [loadConfig_of_not_exists? hexists]
      | true => simp [loadConfig_of_exists? hexists, hread]
  | some text =>
      rw [loadConfig_of_exists? (exists?_of_read? hread), hread]
      cases hparse : Config.parse path text <;> simp [Except.map, Except.mapError, hparse]

end Store

end RichDoc
