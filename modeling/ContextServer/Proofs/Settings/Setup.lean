import ContextServer.Proofs.Text.Blank
import ContextServer.Server

/-!
From settings to a server. The name that the settings accept is one that a server accepts, since
it has been trimmed and is not blank. Of the slots this is not so: the settings take any positive
number of 64 bits, and a server can count 61 bits of them (`new_of_ofVariables`).
-/

namespace ContextServer

namespace Settings

variable {lookup : String → Option String}

/-- Settings are accepted when each of the four checks accepts its own variable. -/
theorem ofVariables_eq_ok {s : Settings} :
    ofVariables lookup = .ok s ↔
      name lookup = .ok s.serverName ∧ s.serverVersion = version lookup ∧
        reading lookup "MCP_FRAMING" Framing.ofWord? .invalidFraming default = .ok s.framing ∧
        reading lookup "MCP_MAX_MESSAGE_BYTES" positive? .invalidMaxMessageBytes
          defaultMaxMessageBytes = .ok s.maxMessageBytes ∧
        reading lookup "MCP_MAX_IN_FLIGHT" slots? .invalidMaxInFlight .unbounded =
          .ok s.admission := by
  obtain ⟨n, v, f, l, a⟩ := s
  simp only [ofVariables, bind, Except.bind, pure, Except.pure]
  constructor
  · intro h
    split at h
    · cases h
    · split at h
      · cases h
      · split at h
        · cases h
        · split at h
          · cases h
          · cases h
            exact ⟨‹_›, rfl, ‹_›, ‹_›, ‹_›⟩
  · rintro ⟨hn, rfl, hf, hl, ha⟩
    simp only [hn, hf, hl, ha]

/-- A name that is accepted is no blank one. -/
theorem trimString_ne_of_name {n : String} (h : name lookup = .ok n) :
    Text.trimString n ≠ "" := by
  unfold name at h
  split at h
  · cases h
    decide
  · split at h
    · cases h
    · cases h
      rwa [Text.trimString_trimString]

theorem value?_eq_some {key t : String} :
    value? lookup key = some t ↔
      ∃ v, lookup key = some v ∧ Text.trimString v = t ∧ t ≠ "" := by
  rw [value?, Option.filter_eq_some_iff, Option.map_eq_some_iff]
  constructor
  · rintro ⟨⟨v, hv, ht⟩, hne⟩
    exact ⟨v, hv, ht, by simpa using hne⟩
  · rintro ⟨v, hv, ht, hne⟩
    exact ⟨⟨v, hv, ht⟩, by simpa using hne⟩

theorem reading_eq_ok {α : Type} {key : String} {read? : String → Option α}
    {fault : SettingsError} {default a : α} :
    reading lookup key read? fault default = .ok a ↔
      (value? lookup key = none ∧ a = default) ∨
        ∃ t, value? lookup key = some t ∧ read? t = some a := by
  unfold reading
  cases hv : value? lookup key with
  | none => simp [eq_comm]
  | some t => cases hr : read? t <;> simp [hr]

theorem slots?_eq_some {t : String} {a : Admission} :
    slots? t = some a ↔ ∃ n pos, Text.word? t.toList = some n ∧ a = .bounded n pos := by
  unfold slots?
  cases Text.word? t.toList with
  | none => simp
  | some n =>
    simp only [Option.dite_none_right_eq_some, Option.some.injEq]
    constructor
    · rintro ⟨pos, rfl⟩
      exact ⟨n, pos, rfl, rfl⟩
    · rintro ⟨m, pos, rfl, rfl⟩
      exact ⟨pos, rfl⟩

/-- The slots are the number that the variable holds between blanks. -/
theorem slotsOf_eq_some {a : Admission} {n : Nat}
    (h : reading lookup "MCP_MAX_IN_FLIGHT" slots? .invalidMaxInFlight .unbounded = .ok a) :
    Server.slotsOf a = some n ↔
      ∃ v, lookup "MCP_MAX_IN_FLIGHT" = some v ∧ Text.word? (Text.trim v.toList) = some n := by
  rcases reading_eq_ok.mp h with ⟨hnone, rfl⟩ | ⟨t, ht, hread⟩
  · constructor
    · nofun
    · rintro ⟨v, hv, hw⟩
      have hblank : Text.trimString v = "" := by
        by_contra hne
        rw [value?_eq_some.mpr ⟨v, hv, rfl, hne⟩] at hnone
        cases hnone
      have hnil : Text.trim v.toList = [] := by simpa [Text.trimString] using hblank
      rw [hnil] at hw
      cases hw
  · obtain ⟨v, hv, rfl, -⟩ := value?_eq_some.mp ht
    obtain ⟨m, pos, hm, rfl⟩ := slots?_eq_some.mp hread
    rw [Text.trimString, String.toList_ofList] at hm
    constructor
    · intro hn
      exact ⟨v, hv, hm.trans hn⟩
    · rintro ⟨v', hv', hn⟩
      obtain rfl : v = v' := Option.some.inj (hv.symm.trans hv')
      exact hm.symm.trans hn

/-- More slots are asked for than a server can count. -/
def Overbooks (lookup : String → Option String) : Prop :=
  ∃ v n, lookup "MCP_MAX_IN_FLIGHT" = some v ∧ Text.word? (Text.trim v.toList) = some n ∧
    Server.maxSlots < n

theorem overbooks_iff {a : Admission}
    (h : reading lookup "MCP_MAX_IN_FLIGHT" slots? .invalidMaxInFlight .unbounded = .ok a) :
    Overbooks lookup ↔ (Server.slotsOf a).any (Server.maxSlots < ·) = true := by
  simp only [Option.any_eq_true, slotsOf_eq_some h, decide_eq_true_eq]
  constructor
  · rintro ⟨v, n, hv, hn, hlt⟩
    exact ⟨n, ⟨v, hv, hn⟩, hlt⟩
  · rintro ⟨n, ⟨v, hv, hn⟩, hlt⟩
    exact ⟨v, n, hv, hn, hlt⟩

/-- A server whose name is not blank is refused for its slots only. -/
theorem new_options {s : Settings} (hn : Text.trimString s.serverName ≠ "") (p : Providers) :
    Server.new (s.options p) =
      if (Server.slotsOf s.admission).any (Server.maxSlots < ·) then .error .tooManySlots
      else .ok ⟨⟨⟨s.serverName, s.serverVersion⟩, p⟩, Server.slotsOf s.admission⟩ :=
  if_neg hn

/-- Accepted settings set a server up with any providers, unless they ask for more slots than it
can count. -/
theorem new_of_ofVariables {s : Settings} (h : ofVariables lookup = .ok s) (p : Providers) :
    (Overbooks lookup → Server.new (s.options p) = .error .tooManySlots) ∧
      (¬ Overbooks lookup → Server.new (s.options p) =
        .ok ⟨⟨⟨s.serverName, s.serverVersion⟩, p⟩, Server.slotsOf s.admission⟩) := by
  obtain ⟨hname, -, -, -, hslots⟩ := ofVariables_eq_ok.mp h
  rw [new_options (trimString_ne_of_name hname), overbooks_iff hslots]
  exact ⟨fun ho => if_pos ho, fun ho => if_neg ho⟩

/-- Variables with blanks around a name and as many slots as a server can count. -/
def fullyBooked : String → Option String
  | "MCP_SERVER_NAME" => some " desk\t"
  | "MCP_MAX_IN_FLIGHT" => some "+2305843009213693951 "
  | _ => none

/-- One slot more is still a positive number of 64 bits. -/
def overbooked : String → Option String
  | "MCP_MAX_IN_FLIGHT" => some "2305843009213693952"
  | _ => none

theorem ofVariables_fullyBooked :
    ofVariables fullyBooked =
      .ok ⟨"desk", "0.1.0", .line, 1048576, .bounded 2305843009213693951 (by decide)⟩ := by
  decide +kernel

theorem ofVariables_overbooked :
    ofVariables overbooked =
      .ok ⟨"stdio-mcp-engine", "0.1.0", .line, 1048576,
        .bounded 2305843009213693952 (by decide)⟩ := by
  decide +kernel

theorem new_of_ofVariables_fullyBooked :
    (∃ s, ofVariables fullyBooked = .ok s ∧ s.serverName = "desk" ∧
      Server.new (s.options .none) =
        .ok ⟨⟨⟨"desk", "0.1.0"⟩, .none⟩, some 2305843009213693951⟩) ∧
    ∃ s, ofVariables overbooked = .ok s ∧
      Server.new (s.options .none) = .error .tooManySlots := by
  constructor
  · refine ⟨_, ofVariables_fullyBooked, rfl,
      (new_of_ofVariables ofVariables_fullyBooked .none).2 ?_⟩
    rintro ⟨v, n, hv, hn, hlt⟩
    cases hv
    obtain rfl : 2305843009213693951 = n := Option.some.inj hn
    exact Nat.lt_irrefl _ hlt
  · refine ⟨_, ofVariables_overbooked, (new_of_ofVariables ofVariables_overbooked .none).1 ?_⟩
    exact ⟨_, _, rfl, rfl, by decide⟩

theorem new_of_overbooked :
    ∃ s, ofVariables overbooked = .ok s ∧
      ∀ p, Server.new (s.options p) = .error .tooManySlots := by
  refine ⟨_, ofVariables_overbooked, ?_⟩
  intro p
  exact new_options (by decide +kernel) p

end Settings

end ContextServer
