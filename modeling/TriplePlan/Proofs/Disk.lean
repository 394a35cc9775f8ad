import TriplePlan.Proofs.Snapshot
import TriplePlan.Store.Disk

/-! Saving a store replaces its file as a whole or leaves it as it was: what is written goes to a
file with another name first. -/
namespace TriplePlan

theorem Text.withExtension_ne (name : List Char) :
    Text.withExtension "cbor.tmp".toList name ≠ name := by
  intro heq
  have hlength := congrArg List.length heq
  rw [Text.withExtension, List.length_append, List.length_cons] at hlength
  have htmp : "cbor.tmp".toList.length = 8 := by decide
  rw [Text.stem] at hlength
  split at hlength
  · rename_i tail htail
    rw [Text.extension?] at htail
    split at htail
    · cases htail
      have hlast : (name.reverse.takeWhile (· ≠ '.')).length = 3 := by
        rw [← heq, Text.withExtension, List.reverse_append]
        rfl
      rw [List.length_take, List.length_reverse, hlast] at hlength
      omega
    · cases htail
  · omega

namespace Disk

variable {d : Disk} {path p : Path}

theorem temporaryName_ne (name : String) : temporaryName name ≠ name := by
  intro h
  refine Text.withExtension_ne name.toList ?_
  rw [← String.toList_ofList (l := Text.withExtension "cbor.tmp".toList name.toList)]
  exact congrArg String.toList h

theorem createDirectories_get? (above below : Path)
    (hp : (d.get? p).isSome ∨ above.length + below.length < p.length) :
    (createDirectories above below d).2.get? p = d.get? p := by
  induction below generalizing above d with
  | nil => rfl
  | cons name below ih =>
    have hlength : (above ++ [name]).length = above.length + 1 := by simp
    rw [List.length_cons] at hp
    rw [createDirectories, Action.bind_ok (Action.get_apply d)]
    cases hentry : d.get? (above ++ [name]) with
    | none =>
      have hne : p ≠ above ++ [name] := by
        rintro rfl
        rw [hentry, hlength] at hp
        simp only [Option.isSome_none, Bool.false_eq_true, false_or] at hp
        omega
      have hput := get?_put_of_ne d hne (some .directory)
      have hrest := ih (d := d.put (above ++ [name]) (some .directory)) (above ++ [name])
        (hput ▸ hp.imp_right (by omega))
      exact hrest.trans hput
    | some entry =>
      cases entry with
      | directory => exact ih (above ++ [name]) (hp.imp_right (by omega))
      | file content => rfl

theorem writeFile_cases (path : Path) (content : Bytes) (d : Disk) :
    writeFile path content d = (.error .io, d) ∨
      writeFile path content d = (.ok (), d.put path (some (.file content))) := by
  rw [writeFile, Action.bind_ok (Action.get_apply d)]
  cases d.get? path with
  | none => exact .inr rfl
  | some entry =>
    cases entry with
    | directory => exact .inl rfl
    | file _ => exact .inr rfl

theorem rename_cases (source target : Path) (d : Disk) :
    Disk.rename source target d = (.error .io, d) ∨
      Disk.rename source target d = (.ok (), (d.put target (d.get? source)).put source none) := by
  rw [Disk.rename, Action.bind_ok (Action.get_apply d)]
  cases d.get? target with
  | none => exact .inr rfl
  | some entry =>
    cases entry with
    | directory => exact .inl rfl
    | file _ => exact .inr rfl

end Disk

namespace Store

open Disk

variable {s : Store} {d : Disk} {above : Path} {name : String}

theorem saveTo_concat (s : Store) (above : Path) (name : String) :
    s.saveTo (above ++ [name]) = (do
      createDirectories [] above
      writeFile (above ++ [temporaryName name]) s.save
      Disk.rename (above ++ [temporaryName name]) (above ++ [name])) := by
  rw [saveTo, List.getLast?_concat, List.dropLast_concat]

/-- What a save leaves at its path and at any other where something stood, the temporary one apart:
the path has the saved store exactly if nothing went wrong on the way. -/
theorem saveTo_cases (s : Store) (above : Path) (name : String) (d : Disk) :
    ∃ d', (s.saveTo (above ++ [name]) d = (.ok (), d') ∧
        d'.get? (above ++ [name]) = some (.file s.save) ∨
      (∃ e, s.saveTo (above ++ [name]) d = (.error e, d')) ∧
        d'.get? (above ++ [name]) = d.get? (above ++ [name])) ∧
      ∀ p, (d.get? p).isSome → p ≠ above ++ [name] → p ≠ above ++ [temporaryName name] →
        d'.get? p = d.get? p := by
  have htemporary : above ++ [name] ≠ above ++ [temporaryName name] := by
    simpa using (temporaryName_ne name).symm
  rw [saveTo_concat, Action.bind_apply]
  have hpath := createDirectories_get? (d := d) [] above (p := above ++ [name]) (.inr (by simp))
  have hothers := fun p hp => createDirectories_get? (d := d) (p := p) [] above (.inl hp)
  generalize createDirectories [] above d = first at hpath hothers
  obtain ⟨result, d₁⟩ := first
  cases result with
  | error e => exact ⟨d₁, .inr ⟨⟨e, rfl⟩, hpath⟩, fun p hp _ _ => hothers p hp⟩
  | ok _ =>
    dsimp only at hpath hothers ⊢
    obtain hwrite | hwrite := writeFile_cases (above ++ [temporaryName name]) s.save d₁
    · rw [Action.bind_error hwrite]
      exact ⟨d₁, .inr ⟨⟨_, rfl⟩, hpath⟩, fun p hp _ _ => hothers p hp⟩
    · rw [Action.bind_ok hwrite]
      obtain hrename | hrename := rename_cases (above ++ [temporaryName name]) (above ++ [name])
        (d₁.put (above ++ [temporaryName name]) (some (.file s.save)))
      · refine ⟨_, .inr ⟨⟨_, hrename⟩, ?_⟩, fun p hp _ hne => ?_⟩
        · exact (get?_put_of_ne d₁ htemporary _).trans hpath
        · exact (get?_put_of_ne d₁ hne _).trans (hothers p hp)
      · refine ⟨_, .inl ⟨hrename, ?_⟩, fun p hp hne hne' => ?_⟩
        · rw [get?_put_of_ne _ htemporary, get?_put_self, get?_put_self]
        · rw [get?_put_of_ne _ hne', get?_put_of_ne _ hne, get?_put_of_ne _ hne']
          exact hothers p hp

/-- A store that was saved is loaded again, and where saving failed the file loads as before. -/
theorem loadFrom_saveTo (h : s.WordSized) (path : Path) (d : Disk) :
    ((s.saveTo path d).1 = .ok () ∧ loadFrom (s.saveTo path d).2 path = .ok s) ∨
      ((∃ e, (s.saveTo path d).1 = .error e) ∧
        loadFrom (s.saveTo path d).2 path = loadFrom d path) := by
  obtain rfl | ⟨above, name, rfl⟩ := path.eq_nil_or_concat'
  · exact .inr ⟨⟨_, rfl⟩, rfl⟩
  · obtain ⟨d', ⟨hrun, hget⟩ | ⟨⟨e, hrun⟩, hget⟩, -⟩ := saveTo_cases s above name d
    · have hload : load? s.save = some s := by simpa using load?_save s h []
      refine .inl ⟨by rw [hrun], ?_⟩
      rw [hrun, loadFrom]
      dsimp only
      rw [hget]
      dsimp only
      rw [hload]
    · refine .inr ⟨⟨e, by rw [hrun]⟩, ?_⟩
      rw [hrun, loadFrom, loadFrom]
      dsimp only
      rw [hget]

end Store

end TriplePlan
