import Mathlib.Data.List.DropRight
import ContextServer.Text.Blank

/-!
Texts that neither begin nor end with a blank: these are what trimming leaves alone, and what it
makes of any text. `Padded` is a text with blanks around it, and trims to what that text trims to.
-/

namespace ContextServer.Text

theorem dropWhile_isBlank {cs : List Char} (h : ∀ c ∈ cs.head?, isBlank c = false) :
    cs.dropWhile isBlank = cs := by
  cases cs with
  | nil => rfl
  | cons c cs => exact List.dropWhile_cons_of_neg (by simp [h c rfl])

/-- Text between two characters that are not blank stays as it is. -/
theorem trim_of_ends {cs : List Char} (hf : ∀ c ∈ cs.head?, isBlank c = false)
    (hl : ∀ c ∈ cs.getLast?, isBlank c = false) : trim cs = cs := by
  rw [trim, dropWhile_isBlank hf, dropWhile_isBlank (by simpa using hl), List.reverse_reverse]

theorem head_dropWhile_isBlank {cs : List Char} {c : Char}
    (h : c ∈ (cs.dropWhile isBlank).head?) : isBlank c = false := by
  have hn := List.head?_dropWhile_not isBlank cs
  rw [Option.mem_def.mp h] at hn
  simpa using hn

/-- What is left at the front is not touched at the back. -/
theorem trim_prefix (cs : List Char) : trim cs <+: cs.dropWhile isBlank :=
  List.rdropWhile_prefix isBlank _

theorem head_trim {cs : List Char} {c : Char} (h : c ∈ (trim cs).head?) : isBlank c = false := by
  obtain ⟨r, hr⟩ := trim_prefix cs
  have hc : c ∈ (cs.dropWhile isBlank).head? := by
    rw [← hr, List.head?_append, Option.mem_def.mp h]
    rfl
  exact head_dropWhile_isBlank hc

theorem getLast_trim {cs : List Char} {c : Char} (h : c ∈ (trim cs).getLast?) :
    isBlank c = false := by
  rw [trim, List.getLast?_reverse] at h
  exact head_dropWhile_isBlank h

@[simp] theorem trim_trim (cs : List Char) : trim (trim cs) = trim cs :=
  trim_of_ends (fun _ => head_trim) (fun _ => getLast_trim)

@[simp] theorem trimString_trimString (s : String) :
    trimString (trimString s) = trimString s := by
  rw [trimString, trimString, String.toList_ofList, trim_trim]

/-- A letter case is no matter of blanks. -/
theorem toLower_of_isBlank {c : Char} (h : isBlank c = true) : c.toLower = c := by
  unfold Char.toLower
  split
  · rename_i hc
    have hA : 65 ≤ c.toNat := UInt32.le_iff_toNat_le.mp hc.1
    have hZ : c.toNat ≤ 90 := UInt32.le_iff_toNat_le.mp hc.2
    simp only [isBlank, Bool.or_eq_true, Bool.and_eq_true, decide_eq_true_eq, beq_iff_eq] at h
    omega
  · rfl

theorem isBlank_of_lower {word : List Char} (h : (lower word).any isBlank = false) :
    ∀ c ∈ word, isBlank c = false := by
  intro c hc
  have hl : isBlank c.toLower = false := by
    simpa using List.any_eq_false.mp h _ (List.mem_map_of_mem hc)
  by_contra hb
  rw [toLower_of_isBlank (by simpa using hb)] at hl
  exact hb hl

/-! ### Blanks around a text -/

variable {l r : List Char}

/-- Blanks around a text are trimmed with those that it has itself. -/
theorem trim_between (hl : ∀ c ∈ l, isBlank c = true) (hr : ∀ c ∈ r, isBlank c = true)
    (cs : List Char) : trim (l ++ cs ++ r) = trim cs := by
  have hback (ds : List Char) :
      (ds ++ r).reverse.dropWhile isBlank = ds.reverse.dropWhile isBlank := by
    rw [List.reverse_append, List.dropWhile_append_of_pos (by simpa using hr)]
  rw [trim, List.append_assoc, List.dropWhile_append_of_pos hl, List.dropWhile_append]
  split
  · rename_i he
    rw [trim, List.isEmpty_iff.mp he, List.dropWhile_eq_nil_iff.mpr hr]
  · rw [hback, trim]

/-- What trimming takes away is blank. -/
theorem exists_trim (cs : List Char) :
    ∃ l r, cs = l ++ trim cs ++ r ∧ (∀ c ∈ l, isBlank c = true) ∧ ∀ c ∈ r, isBlank c = true := by
  refine ⟨cs.takeWhile isBlank, (cs.dropWhile isBlank).rtakeWhile isBlank, ?_, ?_, ?_⟩
  · have hback : trim cs ++ (cs.dropWhile isBlank).rtakeWhile isBlank = cs.dropWhile isBlank :=
      List.rdropWhile_append_rtakeWhile
    rw [List.append_assoc, hback, List.takeWhile_append_dropWhile]
  · exact fun c hc => List.mem_takeWhile_imp hc
  · exact fun c hc => List.mem_rtakeWhile_imp hc

/-- Nothing but blanks, or nothing at all. -/
def Blank (s : String) : Prop := ∀ c ∈ s.toList, isBlank c = true

instance (s : String) : Decidable (Blank s) := List.decidableBAll _ s.toList

/-- This text with any blanks around it. -/
def Padded (cs : List Char) (s : String) : Prop :=
  ∃ before after, s.toList = before ++ cs ++ after ∧
    (∀ c ∈ before, isBlank c = true) ∧ ∀ c ∈ after, isBlank c = true

theorem padded_trim (s : String) : Padded (trim s.toList) s := exists_trim s.toList

theorem Padded.trim_eq {cs : List Char} {s : String} (h : Padded cs s) :
    trim s.toList = trim cs := by
  obtain ⟨before, after, hs, hb, ha⟩ := h
  rw [hs, trim_between hb ha]

theorem Padded.trimString_eq {s t : String} (h : Padded s.toList t) :
    trimString t = trimString s := by
  rw [trimString, trimString, h.trim_eq]

theorem trim_eq_nil {s : String} : trim s.toList = [] ↔ Blank s := by
  constructor
  · intro h
    obtain ⟨before, after, hs, hb, ha⟩ := padded_trim s
    intro c hc
    rw [hs, h, List.append_nil] at hc
    exact (List.mem_append.mp hc).elim (hb c) (ha c)
  · intro h
    have hp : Padded [] s := ⟨s.toList, [], by simp, h, nofun⟩
    exact hp.trim_eq

theorem trimString_eq_empty {s : String} : trimString s = "" ↔ Blank s := by
  rw [← trim_eq_nil, trimString, ← String.toList_inj, String.toList_ofList]
  rfl

theorem dropWhile_isBlank_append_cons {c : Char} (hc : isBlank c = false) (cs ds : List Char) :
    (cs ++ c :: ds).dropWhile isBlank = cs.dropWhile isBlank ++ c :: ds := by
  have hcons : (c :: ds).dropWhile isBlank = c :: ds := List.dropWhile_cons_of_neg (by simp [hc])
  rw [List.dropWhile_append]
  split
  · rename_i h
    rw [hcons, List.isEmpty_iff.mp h, List.nil_append]
  · rfl

/-- A character that is not blank keeps apart what is trimmed before it and behind it. -/
theorem trim_append_cons {c : Char} (hc : isBlank c = false) (cs ds : List Char) :
    ∃ l r, trim (cs ++ c :: ds) = l ++ c :: r ∧ trim l = trim cs ∧ trim r = trim ds ∧ l ⊆ cs := by
  refine ⟨cs.dropWhile isBlank, (ds.reverse.dropWhile isBlank).reverse, ?_, ?_, ?_, ?_⟩
  · rw [trim, dropWhile_isBlank_append_cons hc, List.reverse_append, List.reverse_cons,
      List.append_assoc, List.singleton_append, dropWhile_isBlank_append_cons hc]
    simp
  · have h := trim_between (l := cs.takeWhile isBlank) (r := [])
      (fun c hc => List.mem_takeWhile_imp hc) nofun (cs.dropWhile isBlank)
    rwa [List.append_nil, List.takeWhile_append_dropWhile, eq_comm] at h
  · have h := trim_between (l := []) (r := ds.rtakeWhile isBlank) nofun
      (fun c hc => List.mem_rtakeWhile_imp hc) (ds.rdropWhile isBlank)
    rwa [List.nil_append, List.rdropWhile_append_rtakeWhile, eq_comm] at h
  · exact (List.dropWhile_sublist isBlank).subset

end ContextServer.Text
