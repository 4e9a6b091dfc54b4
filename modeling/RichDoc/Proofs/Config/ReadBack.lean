import Mathlib.Tactic.Common
import RichDoc.Proofs.CommandLine.Stored
import RichDoc.Proofs.Config.Spelled

/-!
# Saved configurations are loaded

The text that is written of a configuration spells it, so it is read as
that configuration unless the name of an index was there before
(`Config.parse_write`). And a text that was written to a path is found
under that path (`Store.read?_of_write?`). Together saving and loading
agree.
-/

namespace RichDoc

/-- **Saving and loading agree.** A configuration that could be saved is loaded from the same path,
if the names of its indexes are different; otherwise the first name that was there before is
reported. -/
theorem loadConfig_of_saveConfig? {store saved : Store} {path : String} {config : Config}
    (hfits : config.Fits) (h : store.saveConfig? path config = some saved) :
    ((config.indexes.map (·.name)).Nodup → saved.loadConfig path = .ok (some config)) ∧
    (¬(config.indexes.map (·.name)).Nodup → ∃ front name rest,
      config.indexes.map (·.name) = front ++ name :: rest ∧ front.Nodup ∧ name ∈ front ∧
        saved.loadConfig path = .error (.config (.duplicateIndex path name))) := by
  obtain ⟨between, -, hwrite⟩ := Option.bind_eq_some_iff.mp h
  have hread := Store.read?_of_write? hwrite
  have hload := Store.loadConfig_of_exists? (Store.exists?_of_read? hread)
  rw [hread] at hload
  dsimp only at hload
  rw [Config.parse_write hfits] at hload
  constructor
  · intro hnodup
    have hnone : firstRepeated? [] (config.indexes.map (·.name)) = none :=
      firstRepeated?_eq_none_iff.mpr ⟨hnodup, fun _ _ => List.not_mem_nil⟩
    rw [hload, hnone]
    rfl
  · intro hrepeated
    cases hname : firstRepeated? [] (config.indexes.map (·.name)) with
    | none => exact absurd (firstRepeated?_eq_none_iff.mp hname).1 hrepeated
    | some name =>
        obtain ⟨front, rest, hnames, hnodup, -, hmem⟩ := exists_of_firstRepeated? hname
        refine ⟨front, name, rest, hnames, hnodup, hmem.resolve_right List.not_mem_nil, ?_⟩
        rw [hload, hname]
        rfl

/-- Texts in three forms come back from a file below the root, and of two names that are there
twice the one that comes back first is reported, here from a file beside the working directory. -/
theorem loadConfig_of_saveConfig?_four :
    let config : Config :=
      { indent := some 2
        indexes := [{ name := "persons", refClass := some "a\"b\\" },
          { name := "\n'", placement := some "'''\"\"\"" }] }
    let repeated : Config :=
      { indexes := [{ name := "a" }, { name := "b" }, { name := "b" }, { name := "a" }] }
    let store : Store := { workingDirectory := ["home", "ann", "notes"] }
    let path := "/home/ann/.config/nestmark/config.toml"
    let beside := "../other/config.toml"
    (∃ saved, store.saveConfig? path config = some saved ∧
      saved.loadConfig path = .ok (some config)) ∧
    ∃ saved, store.saveConfig? beside repeated = some saved ∧
      saved.loadConfig beside = .error (.config (.duplicateIndex beside "b")) := by
  intro config repeated store path beside
  have hpath : Store.pathTo (["home", "ann", ".config", "nestmark"] ++ ["config.toml"]) = path := by
    decide
  obtain ⟨saved, h⟩ : ∃ saved, store.saveConfig? path config = some saved := by
    rw [← hpath]
    exact Store.exists_saveConfig?_pathTo (by decide) (by decide) (fun _ _ _ => rfl)
      fun _ _ => List.not_mem_nil
  have hsaved : (store.saveConfig? beside repeated).isSome = true := by
    unfold store beside repeated
    decide
  obtain ⟨saved', h'⟩ := Option.isSome_iff_exists.mp hsaved
  have hfits : config.Fits := by
    constructor
    · intro version hversion
      cases hversion
    · rintro _ ⟨⟩
      decide
  have hfits' : repeated.Fits := by
    constructor
    · intro version hversion
      cases hversion
    · intro indent hindent
      cases hindent
  refine ⟨⟨saved, h, (loadConfig_of_saveConfig? hfits h).1 (by decide)⟩, saved', h', ?_⟩
  obtain ⟨front, name, rest, hnames, hnodup, hmem, hload⟩ :=
    (loadConfig_of_saveConfig? hfits' h').2 (by decide)
  -- the first two names are different, and with the third they are not
  have hname : name = "b" := by
    have hlist : ["a", "b", "b", "a"] = front ++ name :: rest := hnames
    rcases front with _ | ⟨x, _ | ⟨y, _ | ⟨z, front⟩⟩⟩ <;> grind
  rwa [hname] at hload

end RichDoc
