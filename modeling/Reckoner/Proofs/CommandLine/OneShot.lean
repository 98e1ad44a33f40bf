import Reckoner.Proofs.CommandLine.Options
import Reckoner.Proofs.Session.Transcript

namespace Reckoner

/-- What ends the language in the name of a locale. -/
def localeMarks : List Char :=
  ['_', '.', '@', '-']

theorem notMem_localeMarks {language : List Char}
    (known : String.ofList (language.map Char.toLower) ∈ commaLanguages) :
    ∀ character ∈ language, character ∉ localeMarks := by
  have plain : ∀ name ∈ commaLanguages, ∀ mark ∈ localeMarks, mark ∉ name.toList := by
    simp [commaLanguages, localeMarks]
  have lower : ∀ mark ∈ localeMarks, mark.toLower = mark := by simp [localeMarks]
  intro character member mark
  refine plain _ known character mark ?_
  rw [String.toList_ofList, ← lower character mark]
  exact List.mem_map_of_mem member

/-- A locale asks for the comma if its name starts with one of the languages that
do, in whatever case, and nothing else or a mark follows. -/
theorem Separator.ofLocale_eq_comma_iff (name : String) :
    ofLocale name = .comma ↔ ∃ language rest : List Char, name.toList = language ++ rest ∧
      String.ofList (language.map Char.toLower) ∈ commaLanguages ∧
      ∀ mark ∈ rest.head?, mark ∈ localeMarks := by
  have asked : ofLocale name = .comma ↔ localeLanguage name ∈ commaLanguages := by
    unfold ofLocale
    by_cases known : localeLanguage name ∈ commaLanguages <;> simp [known]
  rw [asked]
  constructor
  · intro known
    refine ⟨_, _, (List.takeWhile_append_dropWhile (p := (· ∉ localeMarks))).symm, known, ?_⟩
    intro mark ends
    have stops := List.head?_dropWhile_not (fun character => decide (character ∉ localeMarks))
      name.toList
    rw [Option.mem_def.mp ends] at stops
    simpa using stops
  · intro starts
    obtain ⟨language, rest, split, known, ends⟩ := starts
    have goes : ∀ character ∈ language, decide (character ∉ localeMarks) = true :=
      fun character member => decide_eq_true (notMem_localeMarks known character member)
    have stops : rest.takeWhile (· ∉ localeMarks) = [] := by
      cases rest with
      | nil => rfl
      | cons mark rest => exact List.takeWhile_cons_of_neg (by simpa using ends mark rfl)
    have whole : name.toList.takeWhile (· ∉ localeMarks) = language := by
      rw [split, List.takeWhile_append_of_pos goes, stops, List.append_nil]
    rw [← whole] at known
    exact known

section

variable {lookup : String → Option String}

end

section

variable {settings : Settings} {expression answer : String}

end

end Reckoner
