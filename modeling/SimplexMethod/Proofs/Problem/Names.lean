import Mathlib.Data.List.DropRight
import Mathlib.Tactic
import SimplexMethod.Problem.Direction

/-!
# Names of directions

Which texts name a direction (`Direction.IsNamedBy`): one of its two names, in capitals or not, with
any white space before and after it. Reading a text finds exactly the direction that the text names
(`Direction.ofText?_eq_some_iff`), and so no text names both of them.
-/

set_option autoImplicit false

namespace SimplexMethod

namespace Text

/-! ## Letters -/

/-- Whether a character is the capital of another one. Only the letters of ASCII have a capital. -/
def IsCapitalOf (c d : Char) : Prop := 65 ≤ c.toNat ∧ c.toNat ≤ 90 ∧ d.toNat = c.toNat + 32

/-- Whether two characters are the same up to the case of ASCII letters. -/
def SameLetter (c d : Char) : Prop := c = d ∨ IsCapitalOf c d ∨ IsCapitalOf d c

theorem toNat_toLower (c : Char) :
    c.toLower.toNat = if 65 ≤ c.toNat ∧ c.toNat ≤ 90 then c.toNat + 32 else c.toNat := by
  have hcapital : (c.val ≥ 'A'.val ∧ c.val ≤ 'Z'.val) ↔ 65 ≤ c.toNat ∧ c.toNat ≤ 90 := by
    rw [ge_iff_le, UInt32.le_iff_toNat_le, UInt32.le_iff_toNat_le]
    exact Iff.rfl
  split_ifs with hnat
  · have hlower : c.toLower.toNat = (c.val + 32).toNat :=
      congrArg Char.toNat (dif_pos (hcapital.2 hnat))
    have hlt : c.val.toNat + 32 < 2 ^ 32 := by
      have hle : c.val.toNat ≤ 90 := hnat.2
      omega
    rw [hlower]
    exact (UInt32.toNat_add c.val 32).trans (Nat.mod_eq_of_lt hlt)
  · exact congrArg Char.toNat (dif_neg fun hval => hnat (hcapital.1 hval))

theorem toLower_eq_toLower_iff {c d : Char} : c.toLower = d.toLower ↔ SameLetter c d := by
  rw [← Char.toNat_inj, toNat_toLower, toNat_toLower, SameLetter, ← Char.toNat_inj, IsCapitalOf,
    IsCapitalOf]
  split_ifs <;> omega

theorem map_toLower_eq_iff {cs ds : List Char} :
    cs.map Char.toLower = ds.map Char.toLower ↔ List.Forall₂ SameLetter cs ds := by
  rw [← List.forall₂_eq_eq_eq, List.forall₂_map_left_iff, List.forall₂_map_right_iff]
  simp only [toLower_eq_toLower_iff]

/-- No letter is white space. -/
theorem not_isBlank_of_letter {c : Char} (hc : 97 ≤ c.toLower.toNat ∧ c.toLower.toNat ≤ 122) :
    ¬ isBlank c = true := by
  have hletter : (65 ≤ c.toNat ∧ c.toNat ≤ 90) ∨ (97 ≤ c.toNat ∧ c.toNat ≤ 122) := by
    rw [toNat_toLower] at hc
    split_ifs at hc with hcapital
    · exact Or.inl hcapital
    · exact Or.inr hc
  simp only [isBlank, inRanges, blankRanges, List.any_cons, List.any_nil, Bool.or_eq_true,
    Bool.and_eq_true, decide_eq_true_eq, Bool.false_eq_true, or_false]
  omega

/-! ## White space around a text -/

/-- Trimming takes off the white space around a text that has none inside. -/
theorem trim_append {before written after : List Char} (hbefore : ∀ c ∈ before, isBlank c = true)
    (hafter : ∀ c ∈ after, isBlank c = true) (hwritten : ∀ c ∈ written, ¬ isBlank c = true) :
    trim (before ++ written ++ after) = written := by
  rw [trim, List.append_assoc, List.dropWhile_append_of_pos hbefore]
  rcases eq_or_ne written [] with rfl | hne
  · -- Without anything written, the white space after it is taken off from the front.
    have hnone : after.dropWhile isBlank = [] := List.dropWhile_eq_nil_iff.2 hafter
    rw [List.nil_append, hnone]
    rfl
  · have hfirst : written.dropWhile isBlank = written :=
      List.dropWhile_eq_self_iff.2 fun hlt => hwritten _ (List.getElem_mem hlt)
    have hlast : written.rdropWhile isBlank = written :=
      List.rdropWhile_eq_self_iff.2 fun hne => hwritten _ (List.getLast_mem hne)
    rw [List.dropWhile_append, hfirst, if_neg (by simpa using hne), List.reverse_append,
      List.dropWhile_append_of_pos fun c hc => hafter c (List.mem_reverse.1 hc)]
    exact hlast

/-- Trimming takes off white space only. -/
theorem exists_eq_append_trim (text : List Char) :
    ∃ before after, text = before ++ trim text ++ after ∧ (∀ c ∈ before, isBlank c = true) ∧
      ∀ c ∈ after, isBlank c = true := by
  have hsplit : text = text.takeWhile isBlank ++
      ((text.dropWhile isBlank).rdropWhile isBlank ++
        (text.dropWhile isBlank).rtakeWhile isBlank) := by
    rw [List.rdropWhile_append_rtakeWhile, List.takeWhile_append_dropWhile]
  rw [← List.append_assoc] at hsplit
  exact ⟨_, _, hsplit, fun _ hc => List.mem_takeWhile_imp hc,
    fun _ hc => List.mem_rtakeWhile_imp hc⟩

end Text

namespace Direction

/-! ## Reading names -/

/-- The names of the directions. -/
inductive Name : Direction → String → Prop
  | min : Name minimize "min"
  | minimize : Name minimize "minimize"
  | max : Name maximize "max"
  | maximize : Name maximize "maximize"

/-- Whether a text is a name of a direction, up to the case of ASCII letters and up to white space
around the name. -/
def IsNamedBy (direction : Direction) (text : String) : Prop :=
  ∃ before written after, text.toList = before ++ written ++ after ∧
    (∀ c ∈ before, Text.isBlank c = true) ∧ (∀ c ∈ after, Text.isBlank c = true) ∧
      ∃ name, direction.Name name ∧ List.Forall₂ Text.SameLetter written name.toList

variable {direction : Direction} {text name : String}

theorem mem_names_iff : name ∈ names direction ↔ direction.Name name := by
  constructor
  · intro h
    cases direction with
    | minimize =>
      rcases List.mem_pair.1 h with rfl | rfl
      · exact .min
      · exact .minimize
    | maximize =>
      rcases List.mem_pair.1 h with rfl | rfl
      · exact .max
      · exact .maximize
  · rintro (_ | _ | _ | _) <;> decide

/-- No text is a name of both directions. -/
theorem notMem_names_maximize : ∀ name ∈ names minimize, name ∉ names maximize := by decide

/-- A text is read as the direction that has it, trimmed and in small letters, among its names. -/
theorem ofText?_eq_some_iff_name : ofText? text = some direction ↔
    direction.Name (String.ofList ((Text.trim text.toList).map Char.toLower)) := by
  rw [← mem_names_iff]
  generalize hread : String.ofList ((Text.trim text.toList).map Char.toLower) = read
  rw [ofText?, hread]
  by_cases hminimize : read ∈ names minimize
  · have hmaximize := notMem_names_maximize read hminimize
    cases direction <;> simp [hminimize, hmaximize]
  · cases direction <;> simp [hminimize]

/-- Names are written in small letters. -/
theorem Name.letters (h : direction.Name name) :
    ∀ c ∈ name.toList, 97 ≤ c.toNat ∧ c.toNat ≤ 122 := by
  have hall : name.toList.all (fun c => 97 ≤ c.toNat && c.toNat ≤ 122) = true := by
    cases h <;> decide
  simpa only [List.all_eq_true, Bool.and_eq_true, decide_eq_true_eq] using hall

/-- In small letters, a name is the same. -/
theorem Name.map_toLower (h : direction.Name name) :
    name.toList.map Char.toLower = name.toList := by
  cases h <;> decide

/-- Reading a text finds the direction that the text names, and only that. -/
theorem ofText?_eq_some_iff : ofText? text = some direction ↔ direction.IsNamedBy text := by
  rw [ofText?_eq_some_iff_name]
  constructor
  · intro hname
    obtain ⟨before, after, htext, hbefore, hafter⟩ := Text.exists_eq_append_trim text.toList
    refine ⟨before, _, after, htext, hbefore, hafter, _, hname, Text.map_toLower_eq_iff.1 ?_⟩
    rw [hname.map_toLower, String.toList_ofList]
  · rintro ⟨before, written, after, htext, hbefore, hafter, name, hname, hwritten⟩
    have hlower : written.map Char.toLower = name.toList := by
      rw [Text.map_toLower_eq_iff.2 hwritten, hname.map_toLower]
    -- A character that is written for a letter of a name is a letter, so it is not trimmed.
    have hblank : ∀ c ∈ written, ¬ Text.isBlank c = true := by
      intro c hc
      apply Text.not_isBlank_of_letter
      apply hname.letters
      rw [← hlower]
      exact List.mem_map_of_mem hc
    rw [htext, Text.trim_append hbefore hafter hblank, hlower, String.ofList_toList]
    exact hname

/-- A text names one direction only. -/
theorem IsNamedBy.unique {other : Direction} (h : direction.IsNamedBy text)
    (hother : other.IsNamedBy text) : direction = other := by
  rw [← ofText?_eq_some_iff] at h hother
  exact Option.some.inj (h.symm.trans hother)

end Direction

end SimplexMethod
