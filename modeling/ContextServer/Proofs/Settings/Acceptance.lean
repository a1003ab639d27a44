import Mathlib.Algebra.Ring.Nat
import ContextServer.Proofs.Settings.Setup
import ContextServer.Proofs.Text.Numeral

/-!
Which variables are settings. A variable that may be left out stands for its default if it is
unset or blank, and otherwise for what the word between its blanks means (`Stands`). Settings are
accepted exactly if every variable that is looked at is fit to be one, and then they are what the
variables stand for; if not, the error is that of the first variable that is not fit
(`ofVariables_decides`).
-/

namespace ContextServer

open Text

namespace Framing

/-- The words for a framing. -/
def words : Framing → List (List Char)
  | line => ["line".toList, "ndjson".toList]
  | header => ["header".toList, "content-length".toList]

/-- One of the words for the framing, in any letter case. -/
def IsWord (f : Framing) (word : List Char) : Prop := lower word ∈ f.words

theorem any_isBlank_of_mem_words {f : Framing} {word : List Char} (h : word ∈ f.words) :
    word.any isBlank = false := by
  have hall : ∀ w ∈ f.words, w.any isBlank = false := by cases f <;> decide
  exact hall word h

theorem IsWord.isBlank {f : Framing} {word : List Char} (h : f.IsWord word) :
    ∀ c ∈ word, isBlank c = false := isBlank_of_lower (any_isBlank_of_mem_words h)

theorem IsWord.ne_nil {f : Framing} {word : List Char} (h : f.IsWord word) : word ≠ [] := by
  rintro rfl
  have hnil : [] ∉ f.words := by cases f <;> decide
  exact hnil h

theorem isWord_line {word : List Char} :
    line.IsWord word ↔ lower word = "line".toList ∨ lower word = "ndjson".toList := by
  simp only [IsWord, words, List.mem_cons, List.not_mem_nil, or_false]

theorem isWord_header {word : List Char} :
    header.IsWord word ↔ lower word = "header".toList ∨ lower word = "content-length".toList := by
  simp only [IsWord, words, List.mem_cons, List.not_mem_nil, or_false]

/-- No word is one for both. -/
theorem IsWord.not_header {word : List Char} (h : line.IsWord word) : ¬ header.IsWord word := by
  have hapart : ∀ w ∈ line.words, w ∉ header.words := by decide
  exact hapart _ h

theorem ofWord?_eq_some {s : String} {f : Framing} :
    ofWord? s = some f ↔ f.IsWord (trim s.toList) := by
  unfold ofWord?
  dsimp only
  by_cases hl : line.IsWord (trim s.toList)
  · rw [if_pos (isWord_line.mp hl)]
    cases f with
    | line => simp [hl]
    | header => simp [hl.not_header]
  · rw [if_neg (hl ∘ isWord_line.mpr)]
    by_cases hh : header.IsWord (trim s.toList)
    · rw [if_pos (isWord_header.mp hh)]
      cases f with
      | line => simp [hl]
      | header => simp [hh]
    · rw [if_neg (hh ∘ isWord_header.mpr)]
      cases f with
      | line => simp [hl]
      | header => simp [hh]

end Framing

namespace Settings

/-! ### What a variable stands for -/

/-- What a variable stands for that may be left out: if it is unset or blank, for the default, and
otherwise for what is meant by the word between its blanks. -/
inductive Stands {α : Type} (Means : α → List Char → Prop) (default : α) :
    Option String → α → Prop
  | unset : Stands Means default none default
  | blank {s : String} (h : Blank s) : Stands Means default (some s) default
  | word {s : String} {a : α} {word : List Char} (hs : Padded word s) (h : Means a word) :
      Stands Means default (some s) a

/-- A text means itself, without blanks around it. -/
def IsText (a : String) (word : List Char) : Prop :=
  word ≠ [] ∧ trim word = word ∧ a = String.ofList word

/-- A numeral from one up to the most that 64 bits hold. -/
def IsLimit (n : Nat) (word : List Char) : Prop := IsNumeral n word ∧ 1 ≤ n ∧ n ≤ 2 ^ 64 - 1

def IsSlots (a : Admission) (word : List Char) : Prop :=
  ∃ n pos, a = .bounded n pos ∧ IsLimit n word

/-- The reader takes a text for exactly what it means between its blanks, and blanks mean
nothing. -/
structure Understands {α : Type} (read? : String → Option α) (Means : α → List Char → Prop) :
    Prop where
  eq_some : ∀ s a, ¬ Blank s → (read? (trimString s) = some a ↔ Means a (trim s.toList))
  ne_nil : ∀ a word, Means a word → word ≠ []
  trim_eq : ∀ a word, Means a word → trim word = word

theorem trim_of_isBlank {word : List Char} (h : ∀ c ∈ word, isBlank c = false) :
    trim word = word :=
  trim_of_ends (fun c hc => h c (List.mem_of_mem_head? hc))
    (fun c hc => h c (List.mem_of_getLast? hc))

theorem understands_text : Understands some IsText where
  eq_some s a hb := by
    have hne : trim s.toList ≠ [] := hb ∘ trim_eq_nil.mp
    simp [IsText, hne, trimString, eq_comm]
  ne_nil _ _ h := h.1
  trim_eq _ _ h := h.2.1

theorem understands_framing : Understands Framing.ofWord? Framing.IsWord where
  eq_some s f _ := by
    rw [Framing.ofWord?_eq_some, trimString, String.toList_ofList, trim_trim]
  ne_nil _ _ h := h.ne_nil
  trim_eq _ _ h := trim_of_isBlank h.isBlank

theorem word?_eq_some_pos {n : Nat} {word : List Char} :
    word? word = some n ∧ 0 < n ↔ IsLimit n word := by
  have hbound : wordBound = 2 ^ 64 := rfl
  rw [word?_eq_some, IsLimit, hbound]
  constructor
  · rintro ⟨⟨h, hlt⟩, hpos⟩
    exact ⟨h, hpos, by omega⟩
  · rintro ⟨h, hpos, hle⟩
    exact ⟨⟨h, by omega⟩, hpos⟩

theorem understands_limit : Understands positive? IsLimit where
  eq_some s n _ := by
    rw [positive?, Option.filter_eq_some_iff, decide_eq_true_eq, word?_eq_some_pos, trimString,
      String.toList_ofList]
  ne_nil _ _ h := h.1.ne_nil
  trim_eq _ _ h := trim_of_isBlank h.1.isBlank

theorem understands_slots : Understands slots? IsSlots where
  eq_some s a _ := by
    rw [slots?_eq_some, trimString, String.toList_ofList]
    constructor
    · rintro ⟨n, pos, hn, rfl⟩
      exact ⟨n, pos, rfl, word?_eq_some_pos.mp ⟨hn, pos⟩⟩
    · rintro ⟨n, pos, rfl, hn⟩
      exact ⟨n, pos, (word?_eq_some_pos.mpr hn).1, rfl⟩
  ne_nil := fun _ _ ⟨_, _, _, h⟩ => h.1.ne_nil
  trim_eq := fun _ _ ⟨_, _, _, h⟩ => trim_of_isBlank h.1.isBlank

/-! ### Reading a variable -/

variable {lookup other : String → Option String} {key s : String}

theorem value?_of_vacant (h : ∀ s, lookup key = some s → Blank s) : value? lookup key = none := by
  rw [Option.eq_none_iff_forall_ne_some]
  intro t ht
  obtain ⟨s, hs, rfl, hne⟩ := value?_eq_some.mp ht
  exact hne (trimString_eq_empty.mpr (h s hs))

theorem value?_of_not_blank (hs : lookup key = some s) (hb : ¬ Blank s) :
    value? lookup key = some (trimString s) :=
  value?_eq_some.mpr ⟨s, hs, rfl, hb ∘ trimString_eq_empty.mp⟩

section

variable {α : Type} {read? : String → Option α} {Means : α → List Char → Prop}
  {fault : SettingsError} {default a : α}

theorem stands_none : Stands Means default none a ↔ a = default := by
  constructor
  · intro h
    cases h
    rfl
  · rintro rfl
    exact .unset

namespace Understands

variable (hr : Understands read? Means)
include hr

theorem stands_blank (hb : Blank s) : Stands Means default (some s) a ↔ a = default := by
  constructor
  · intro h
    cases h with
    | blank _ => rfl
    | @word _ _ word hp hm =>
      have htrim : trim s.toList = word := hp.trim_eq.trans (hr.trim_eq a word hm)
      exact absurd (htrim.symm.trans (trim_eq_nil.mpr hb)) (hr.ne_nil a word hm)
  · rintro rfl
    exact .blank hb

theorem stands_of_not_blank (hb : ¬ Blank s) :
    Stands Means default (some s) a ↔ read? (trimString s) = some a := by
  rw [hr.eq_some s a hb]
  constructor
  · intro h
    cases h with
    | blank h => exact absurd h hb
    | @word _ _ word hp hm =>
      rw [hp.trim_eq, hr.trim_eq a word hm]
      exact hm
  · exact .word (padded_trim s)

/-- A variable is read as what it stands for. -/
theorem reading_eq_ok :
    reading lookup key read? fault default = .ok a ↔ Stands Means default (lookup key) a := by
  cases hs : lookup key with
  | none =>
    rw [reading, value?_of_vacant (by simp [hs]), stands_none]
    simp [eq_comm]
  | some s =>
    by_cases hb : Blank s
    · rw [reading, value?_of_vacant (by simpa [hs] using hb), hr.stands_blank hb]
      simp [eq_comm]
    · rw [reading, value?_of_not_blank hs hb, hr.stands_of_not_blank hb]
      cases h : read? (trimString s) <;> simp [h]

/-- Where a variable stands for nothing, the fault is its own. -/
theorem reading_eq_error {e : SettingsError} :
    reading lookup key read? fault default = .error e ↔
      e = fault ∧ ¬ ∃ a, Stands Means default (lookup key) a := by
  have hok : (∃ a, reading lookup key read? fault default = .ok a) ↔
      ∃ a, Stands Means default (lookup key) a := exists_congr fun _ => hr.reading_eq_ok
  rw [← hok]
  unfold reading
  cases value? lookup key with
  | none => simp
  | some t => cases h : read? t <;> simp [h, eq_comm]

end Understands

end

/-- The version is what its variable stands for, and that is always something. -/
theorem eq_version_iff {v : String} :
    v = version lookup ↔ Stands IsText defaultVersion (lookup "MCP_SERVER_VERSION") v := by
  have hread : reading lookup "MCP_SERVER_VERSION" some .emptyServerName defaultVersion = .ok v ↔
      Stands IsText defaultVersion (lookup "MCP_SERVER_VERSION") v := understands_text.reading_eq_ok
  rw [← hread, version, reading]
  cases value? lookup "MCP_SERVER_VERSION" <;> simp [eq_comm]

/-- Whether a variable is fit for what it is looked at for: the error tells for what. The name
alone is not to be blank. -/
def Fit : SettingsError → Option String → Prop
  | .emptyServerName, v => ∀ s, v = some s → ¬ Blank s
  | .invalidFraming, v => ∃ f, Stands Framing.IsWord .line v f
  | .invalidMaxMessageBytes, v => ∃ n, Stands IsLimit defaultMaxMessageBytes v n
  | .invalidMaxInFlight, v => ∃ a, Stands IsSlots .unbounded v a

theorem name_eq_ok {n : String} :
    name lookup = .ok n ↔
      Fit .emptyServerName (lookup "MCP_SERVER_NAME") ∧
        Stands IsText defaultName (lookup "MCP_SERVER_NAME") n := by
  unfold name
  cases hs : lookup "MCP_SERVER_NAME" with
  | none => simp [Fit, stands_none, eq_comm]
  | some s =>
    by_cases hb : Blank s
    · simp [Fit, hb, trimString_eq_empty.mpr hb]
    · rw [understands_text.stands_of_not_blank hb]
      simp [Fit, hb, trimString_eq_empty]

theorem name_eq_error {e : SettingsError} :
    name lookup = .error e ↔
      e = .emptyServerName ∧ ¬ Fit .emptyServerName (lookup "MCP_SERVER_NAME") := by
  unfold name
  cases hs : lookup "MCP_SERVER_NAME" with
  | none => simp [Fit]
  | some s =>
    by_cases hb : Blank s
    · simp only [trimString_eq_empty.mpr hb, if_true, Except.error.injEq]
      exact ⟨fun h => ⟨h.symm, fun hfit => hfit s rfl hb⟩, fun h => h.1.symm⟩
    · simp [Fit, hb, trimString_eq_empty]

end Settings

/-! ### All variables -/

namespace SettingsError

/-- The variable that an error is about. -/
def key : SettingsError → String
  | emptyServerName => "MCP_SERVER_NAME"
  | invalidFraming => "MCP_FRAMING"
  | invalidMaxMessageBytes => "MCP_MAX_MESSAGE_BYTES"
  | invalidMaxInFlight => "MCP_MAX_IN_FLIGHT"

/-- The errors in the order in which their variables are looked at. -/
def inOrder : List SettingsError :=
  [emptyServerName, invalidFraming, invalidMaxMessageBytes, invalidMaxInFlight]

/-- A message begins with the variable that it is about. -/
theorem key_prefix_message (e : SettingsError) : e.key.toList <+: e.message.toList := by
  cases e <;> decide

end SettingsError

namespace Settings

variable {lookup other : String → Option String}

/-- The variable of the error is not fit, and those that are looked at before it are. -/
def FirstUnfit (lookup : String → Option String) (e : SettingsError) : Prop :=
  ∃ before after, SettingsError.inOrder = before ++ e :: after ∧ ¬ Fit e (lookup e.key) ∧
    ∀ d ∈ before, Fit d (lookup d.key)

/-- The settings that these variables stand for. -/
structure Describes (lookup : String → Option String) (s : Settings) : Prop where
  named : ∀ v, lookup "MCP_SERVER_NAME" = some v → ¬ Blank v
  name : Stands IsText defaultName (lookup "MCP_SERVER_NAME") s.serverName
  version : Stands IsText defaultVersion (lookup "MCP_SERVER_VERSION") s.serverVersion
  framing : Stands Framing.IsWord .line (lookup "MCP_FRAMING") s.framing
  limit : Stands IsLimit defaultMaxMessageBytes (lookup "MCP_MAX_MESSAGE_BYTES") s.maxMessageBytes
  slots : Stands IsSlots .unbounded (lookup "MCP_MAX_IN_FLIGHT") s.admission

theorem ofVariables_eq_ok_iff {s : Settings} :
    ofVariables lookup = .ok s ↔ Describes lookup s := by
  rw [ofVariables_eq_ok, name_eq_ok, eq_version_iff, understands_framing.reading_eq_ok,
    understands_limit.reading_eq_ok, understands_slots.reading_eq_ok]
  constructor
  · rintro ⟨⟨hnamed, hn⟩, hv, hf, hl, ha⟩
    exact ⟨hnamed, hn, hv, hf, hl, ha⟩
  · rintro ⟨hnamed, hn, hv, hf, hl, ha⟩
    exact ⟨⟨hnamed, hn⟩, hv, hf, hl, ha⟩

theorem bind_eq_error {ε α β : Type} {x : Except ε α} {f : α → Except ε β} {e : ε} :
    (x >>= f) = .error e ↔ x = .error e ∨ ∃ a, x = .ok a ∧ f a = .error e := by
  cases x <;> simp [bind, Except.bind]

/-- The checks are made one after the other, and the first that fails gives the error. -/
theorem firstUnfit_of_error {e : SettingsError} (h : ofVariables lookup = .error e) :
    FirstUnfit lookup e := by
  rcases bind_eq_error.mp h with hn | ⟨n, hn, h⟩
  · obtain ⟨rfl, hu⟩ := name_eq_error.mp hn
    exact ⟨[], _, rfl, hu, nofun⟩
  have named : Fit .emptyServerName (lookup "MCP_SERVER_NAME") := (name_eq_ok.mp hn).1
  rcases bind_eq_error.mp h with hf | ⟨f, hf, h⟩
  · obtain ⟨rfl, hu⟩ := understands_framing.reading_eq_error.mp hf
    exact ⟨[.emptyServerName], _, rfl, hu, List.forall_mem_singleton.mpr named⟩
  have framed : Fit .invalidFraming (lookup "MCP_FRAMING") :=
    ⟨f, understands_framing.reading_eq_ok.mp hf⟩
  rcases bind_eq_error.mp h with hl | ⟨l, hl, h⟩
  · obtain ⟨rfl, hu⟩ := understands_limit.reading_eq_error.mp hl
    exact ⟨[.emptyServerName, .invalidFraming], _, rfl, hu,
      List.forall_mem_cons.mpr ⟨named, List.forall_mem_singleton.mpr framed⟩⟩
  have limited : Fit .invalidMaxMessageBytes (lookup "MCP_MAX_MESSAGE_BYTES") :=
    ⟨l, understands_limit.reading_eq_ok.mp hl⟩
  rcases bind_eq_error.mp h with ha | ⟨a, -, h⟩
  · obtain ⟨rfl, hu⟩ := understands_slots.reading_eq_error.mp ha
    exact ⟨[.emptyServerName, .invalidFraming, .invalidMaxMessageBytes], _, rfl, hu,
      List.forall_mem_cons.mpr ⟨named,
        List.forall_mem_cons.mpr ⟨framed, List.forall_mem_singleton.mpr limited⟩⟩⟩
  · cases h

theorem FirstUnfit.unique {d e : SettingsError} (hd : FirstUnfit lookup d)
    (he : FirstUnfit lookup e) : d = e := by
  classical
  have find {e : SettingsError} (h : FirstUnfit lookup e) :
      SettingsError.inOrder.find? (fun d => ¬ Fit d (lookup d.key)) = some e := by
    obtain ⟨before, after, horder, hu, hb⟩ := h
    exact List.find?_eq_some_iff_append.mpr
      ⟨by simpa using hu, before, after, horder, by simpa using hb⟩
  exact Option.some.inj ((find hd).symm.trans (find he))

theorem Describes.fit {s : Settings} (h : Describes lookup s) (e : SettingsError) :
    Fit e (lookup e.key) := by
  cases e with
  | emptyServerName => exact h.named
  | invalidFraming => exact ⟨_, h.framing⟩
  | invalidMaxMessageBytes => exact ⟨_, h.limit⟩
  | invalidMaxInFlight => exact ⟨_, h.slots⟩

theorem ofVariables_eq_error_iff {e : SettingsError} :
    ofVariables lookup = .error e ↔ FirstUnfit lookup e := by
  refine ⟨firstUnfit_of_error, fun he => ?_⟩
  cases h : ofVariables lookup with
  | ok s =>
    obtain ⟨-, -, -, hu, -⟩ := he
    exact absurd ((ofVariables_eq_ok_iff.mp h).fit e) hu
  | error d => rw [(firstUnfit_of_error h).unique he]

theorem exists_ofVariables_iff :
    (∃ s, ofVariables lookup = .ok s) ↔ ∀ e, Fit e (lookup e.key) := by
  constructor
  · rintro ⟨s, h⟩
    exact (ofVariables_eq_ok_iff.mp h).fit
  · intro hfit
    cases h : ofVariables lookup with
    | ok s => exact ⟨s, rfl⟩
    | error e =>
      obtain ⟨-, -, -, hu, -⟩ := firstUnfit_of_error h
      exact absurd (hfit e) hu

/-! ### Other variables for the same settings -/

/-- Another way to set a variable: with blanks around its value, or not at all where its value is
blank. A blank name is not to be left out. -/
inductive Reworded (key : String) : Option String → Option String → Prop
  | same {v : Option String} : Reworded key v v
  | padded {s t : String} (h : Padded s.toList t) : Reworded key (some s) (some t)
  | cleared {s : String} (hk : key ≠ "MCP_SERVER_NAME") (hs : Blank s) :
      Reworded key (some s) none

theorem value?_of_reworded {key : String} (h : Reworded key (lookup key) (other key)) :
    value? other key = value? lookup key := by
  unfold value?
  generalize lookup key = v, other key = w at h
  cases h with
  | same => rfl
  | padded h => rw [Option.map_some, Option.map_some, h.trimString_eq]
  | cleared _ hs => simp [trimString_eq_empty.mpr hs, Option.filter]

theorem name_of_reworded
    (h : Reworded "MCP_SERVER_NAME" (lookup "MCP_SERVER_NAME") (other "MCP_SERVER_NAME")) :
    name other = name lookup := by
  unfold name
  generalize lookup "MCP_SERVER_NAME" = v, other "MCP_SERVER_NAME" = w at h
  cases h with
  | same => rfl
  | padded h => simp only [h.trimString_eq]
  | cleared hk => exact absurd rfl hk

theorem ofVariables_of_reworded (h : ∀ key, Reworded key (lookup key) (other key)) :
    ofVariables other = ofVariables lookup := by
  simp only [ofVariables, reading, version, name_of_reworded (h _), value?_of_reworded (h _)]

/-- The version has no say in whether settings are accepted. -/
theorem ofVariables_of_version (h : ∀ key, key ≠ "MCP_SERVER_VERSION" → other key = lookup key) :
    ofVariables other =
      (ofVariables lookup).map fun s => { s with serverVersion := version other } := by
  have hname : name other = name lookup := by rw [name, name, h _ (by decide)]
  have hread {α : Type} (key : String) (read? : String → Option α) (fault : SettingsError)
      (default : α) (hk : key ≠ "MCP_SERVER_VERSION") :
      reading other key read? fault default = reading lookup key read? fault default := by
    rw [reading, reading, value?, value?, h key hk]
  show _ = (fun s : Settings => { s with serverVersion := version other }) <$> ofVariables lookup
  simp (disch := decide) only [ofVariables, map_bind, map_pure, hname, hread]

/-! ### The decision -/

/-- Settings are accepted exactly if all variables are fit, and are what the variables stand for.
Otherwise the error is that of the first variable that is not fit, and its message begins with the
variable. Blanks around a value and blank values other than the name change nothing, and the
version nothing but itself. -/
theorem ofVariables_decides (lookup : String → Option String) :
    ((∃ s, ofVariables lookup = .ok s) ↔ ∀ e, Fit e (lookup e.key)) ∧
      (∀ s, ofVariables lookup = .ok s ↔ Describes lookup s) ∧
      (∀ e, ofVariables lookup = .error e ↔ FirstUnfit lookup e) ∧
      (∀ e : SettingsError, e.key.toList <+: e.message.toList) ∧
      (∀ other, (∀ key, Reworded key (lookup key) (other key)) →
        ofVariables other = ofVariables lookup) ∧
      ∀ other, (∀ key, key ≠ "MCP_SERVER_VERSION" → other key = lookup key) →
        ofVariables other =
          (ofVariables lookup).map fun s => { s with serverVersion := version other } := by
  refine ⟨exists_ofVariables_iff, ?_, ?_, SettingsError.key_prefix_message, ?_, ?_⟩
  · intro s
    exact ofVariables_eq_ok_iff
  · intro e
    exact ofVariables_eq_error_iff
  · intro other h
    exact ofVariables_of_reworded h
  · intro other h
    exact ofVariables_of_version h

/-- Variables with the highest limit there is, in a long spelling. -/
def roomy : String → Option String
  | "MCP_SERVER_NAME" => some "desk"
  | "MCP_SERVER_VERSION" => some " "
  | "MCP_FRAMING" => some "Content-LENGTH"
  | "MCP_MAX_MESSAGE_BYTES" => some "+0018446744073709551615"
  | _ => none

/-- The same with blanks around the values, and without the one that is blank. -/
def roomyPadded (key : String) : Option String :=
  if key = "MCP_SERVER_VERSION" then none
  else (roomy key).map fun s => "\u3000" ++ s ++ "\x0c\n"

/-- The same with a version. -/
def roomyVersioned (key : String) : Option String :=
  if key = "MCP_SERVER_VERSION" then some "+0" else roomy key

/-- Variables of which two are not fit. -/
def spoiled : String → Option String
  | "MCP_SERVER_VERSION" => some ""
  | "MCP_FRAMING" => some "header line"
  | "MCP_MAX_IN_FLIGHT" => some "+0"
  | _ => none

theorem ofVariables_decides_roomy :
    ofVariables roomyPadded =
        .ok ⟨"desk", "0.1.0", .header, 18446744073709551615, .unbounded⟩ ∧
      ofVariables roomyVersioned =
        .ok ⟨"desk", "+0", .header, 18446744073709551615, .unbounded⟩ ∧
      FirstUnfit spoiled .invalidFraming := by
  have roomy_eq : ofVariables roomy =
      .ok ⟨"desk", "0.1.0", .header, 18446744073709551615, .unbounded⟩ := by decide +kernel
  obtain ⟨-, -, -, -, reworded, versioned⟩ := ofVariables_decides roomy
  refine ⟨?_, ?_, ?_⟩
  · rw [reworded roomyPadded ?_, roomy_eq]
    intro key
    unfold roomyPadded
    split
    · subst key
      exact .cleared (by decide) (by decide)
    · cases roomy key with
      | none => exact .same
      | some s =>
        exact .padded ⟨['\u3000'], ['\x0c', '\n'], by simp, List.all_eq_true.mp (by decide),
          List.all_eq_true.mp (by decide)⟩
  · rw [versioned roomyVersioned ?_, roomy_eq]
    · rfl
    · intro key hk
      exact if_neg hk
  · exact ((ofVariables_decides spoiled).2.2.1 .invalidFraming).mp (by decide +kernel)

end Settings

end ContextServer
