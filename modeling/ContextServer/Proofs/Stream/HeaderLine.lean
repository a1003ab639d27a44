import ContextServer.Proofs.Stream.Chunking
import ContextServer.Proofs.Text.Lenient
import ContextServer.Proofs.Text.Numeral

/-!
One line of a header. It is decoded leniently and trimmed, and a line with a colon is taken apart
at the first one: `headerLine_colon` says what comes of it for bytes of any kind. Whether the line
tells a length is a matter of its name alone, and bytes that are not well formed are in no such
name, because they decode to a replacement character.
-/

namespace ContextServer

namespace Text

/-- These bytes are a word with blanks around it. -/
def Spaced (word : List Char) (bs : List UInt8) : Prop :=
  ∃ before after, bs = Utf8.encode (before ++ word ++ after) ∧
    (∀ c ∈ before, isBlank c = true) ∧ ∀ c ∈ after, isBlank c = true

theorem Spaced.trim_eq {word : List Char} {bs : List UInt8} (h : Spaced word bs)
    (hw : ∀ c ∈ word, isBlank c = false) : trim (Utf8.decodeLossy bs) = word := by
  obtain ⟨before, after, rfl, hb, ha⟩ := h
  rw [Utf8.decodeLossy_encode, trim_between hb ha]
  exact trim_of_ends (fun c hc => hw c (List.mem_of_mem_head? hc))
    (fun c hc => hw c (List.mem_of_getLast? hc))

/-- A replacement character is no blank, so nothing but blanks has been trimmed away. -/
theorem spaced_of_trim {bs : List UInt8} (h : Utf8.replacement ∉ trim (Utf8.decodeLossy bs)) :
    Spaced (trim (Utf8.decodeLossy bs)) bs := by
  obtain ⟨before, after, hcs, hb, ha⟩ := exists_trim (Utf8.decodeLossy bs)
  refine ⟨before, after, ?_, hb, ha⟩
  rw [← hcs]
  refine ((Utf8.lossy_decodeLossy bs).encode_eq ?_).symm
  rw [hcs, List.mem_append, List.mem_append]
  rintro ((hm | hm) | hm)
  · exact absurd (hb _ hm) (by decide)
  · exact h hm
  · exact absurd (ha _ hm) (by decide)

end Text

namespace Framing

open Text

def colon : UInt8 := 58

/-- The name of a line that tells the length of the body: in any letter case, and with any blanks
around it. -/
def NamesLength (name : List UInt8) : Prop :=
  ∃ word, lower word = Reader.contentLength ∧ Spaced word name

/-- A decimal number, with any blanks around it. -/
def Tells (n : Nat) (value : List UInt8) : Prop := ∃ word, IsNumeral n word ∧ Spaced word value

theorem namesLength_iff {name : List UInt8} :
    NamesLength name ↔ lower (trim (Utf8.decodeLossy name)) = Reader.contentLength := by
  constructor
  · rintro ⟨word, hword, hname⟩
    rw [hname.trim_eq (isBlank_of_lower (by rw [hword]; decide)), hword]
  · intro h
    refine ⟨_, h, spaced_of_trim fun hm => ?_⟩
    have hmem : Utf8.replacement.toLower ∈ Reader.contentLength := h ▸ List.mem_map_of_mem hm
    exact absurd hmem (by decide)

instance (name : List UInt8) : Decidable (NamesLength name) :=
  decidable_of_iff _ namesLength_iff.symm

end Framing

namespace Reader

open Framing Text

/-- The name is what lies before the first colon, and decides alone whether the line counts. -/
theorem headerLine_colon {name : List UInt8} (value : List UInt8) (hn : colon ∉ name) :
    headerLine (name ++ colon :: value) =
      if NamesLength name then
        match word? (trim (Utf8.decodeLossy value)) with
        | some n => .length n
        | none => .invalid (String.ofList (trim (Utf8.decodeLossy (name ++ colon :: value))))
      else .other := by
  have hdecode : Utf8.decodeLossy (name ++ colon :: value) =
      Utf8.decodeLossy name ++ ':' :: Utf8.decodeLossy value :=
    Utf8.decodeLossy_ascii name value (by decide)
  have hcolon : ':' ∉ Utf8.decodeLossy name := fun h =>
    hn ((Utf8.lossy_decodeLossy name).mem_of_mem h (by decide))
  obtain ⟨l, r, htrim, hl, hr, hsub⟩ := trim_append_cons (c := ':') (by decide)
    (Utf8.decodeLossy name) (Utf8.decodeLossy value)
  have hsplit : splitAt? ':' (l ++ ':' :: r) = some (l, r) :=
    splitAt?_append_left fun h => hcolon (hsub h)
  simp only [headerLine, hdecode, htrim, hsplit, hl, hr, namesLength_iff]
  exact if_neg (by simp)

theorem headerLine_of_tells {name value : List UInt8} {n : Nat} (hc : colon ∉ name)
    (hname : NamesLength name) (hvalue : Tells n value) (hn : n < wordBound) :
    headerLine (name ++ colon :: value) = .length n := by
  obtain ⟨word, hword, hspaced⟩ := hvalue
  rw [headerLine_colon value hc, if_pos hname, hspaced.trim_eq hword.isBlank,
    word?_of_isNumeral hword hn]

theorem headerLine_of_not_namesLength {name : List UInt8} (value : List UInt8) (hc : colon ∉ name)
    (hname : ¬ NamesLength name) : headerLine (name ++ colon :: value) = .other := by
  rw [headerLine_colon value hc, if_neg hname]

theorem headerLine_concat_return (bs : List UInt8) :
    headerLine (bs ++ [carriageReturn]) = headerLine bs := by
  have hdecode : Utf8.decodeLossy (bs ++ [carriageReturn]) = Utf8.decodeLossy bs ++ ['\r'] :=
    Utf8.decodeLossy_ascii bs [] (by decide)
  have htrim : trim (Utf8.decodeLossy bs ++ ['\r']) = trim (Utf8.decodeLossy bs) :=
    trim_between (l := []) nofun (List.forall_mem_singleton.mpr rfl) (Utf8.decodeLossy bs)
  rw [headerLine, hdecode, htrim, headerLine]

/-- A carriage return at the end is trimmed away even where it stays with the line. -/
theorem headerLine_stripReturn (bs : List UInt8) : headerLine (stripReturn bs) = headerLine bs := by
  unfold stripReturn
  split
  · rename_i h
    obtain ⟨as, rfl⟩ := List.getLast?_eq_some_iff.mp h
    rw [List.dropLast_concat, headerLine_concat_return]
  · rfl

end Reader

end ContextServer
