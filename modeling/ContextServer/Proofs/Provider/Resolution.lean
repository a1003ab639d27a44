import Mathlib.Data.List.TakeWhile
import ContextServer.Proofs.Provider.Registrations

/-!
How a URI is resolved after any registrations. A resource of exactly that URI comes first; of the
templates whose literal part begins the URI, those with the longest literal part, and of these the
one that was registered last (`Chosen`). A template that is registered again moves to the end of the
list, but its literal part stays the same, so the list chooses what the history of registrations
chooses (`chosen_entries_iff`). Where different templates have different literal parts, no two of
them are ever equally long, and the order of the registrations has no say (`Resolves.of_same`).
-/

namespace ContextServer

/-- An item that is replaced by one of the same key is replaced in every group of keys as well. -/
theorem last?_enlisted {α : Type} {key group : α → String}
    (hg : ∀ a b, key a = key b → group a = group b) (as : List α) (k : String) :
    last? group (enlisted key as) k = last? group as k := by
  induction as using List.reverseRecOn with
  | nil => rfl
  | append_singleton as a ih =>
    rw [enlisted_concat, enlist, last?_concat, last?_concat]
    by_cases hk : k = group a
    · rw [if_pos hk, if_pos hk]
    · rw [if_neg hk, if_neg hk, ← ih, last?, last?, List.filter_filter]
      refine congrArg List.getLast? (List.filter_congr fun b _ => ?_)
      by_cases hb : group b = k
      · have hne : key b ≠ key a := fun h => hk (hb.symm.trans (hg b a h))
        simp [hb, hne]
      · simp [hb]

/-- Of keys that occur only once the last items are the same in every order. -/
theorem last?_perm {α : Type} {key : α → String} {as bs : List α} (h : as.Perm bs)
    (hn : (as.map key).Nodup) (k : String) : last? key as k = last? key bs k := by
  have hf := h.filter (key · == k)
  have hnodup : ((as.filter (key · == k)).map key).Nodup :=
    (List.filter_sublist.map key).nodup hn
  have hkey : ∀ a ∈ as.filter (key · == k), key a = k := fun a ha =>
    beq_iff_eq.mp (List.mem_filter.mp ha).2
  rw [last?, last?]
  cases hl : as.filter (key · == k) with
  | nil =>
    rw [hl] at hf
    rw [hf.nil_eq]
  | cons a r =>
    rw [hl] at hf hnodup hkey
    cases r with
    | nil => rw [List.singleton_perm.mp hf]
    | cons b r =>
      have ha := hkey a (by simp)
      have hb := hkey b (by simp)
      simp [ha, hb] at hnodup

namespace ResourceRegistry

/-- `l` is the text before the first brace, or all of it if there is none. -/
def IsLiteral (uriTemplate : String) (l : List Char) : Prop :=
  '{' ∉ l ∧ (uriTemplate.toList = l ∨ ∃ rest, uriTemplate.toList = l ++ '{' :: rest)

theorem isLiteral_literal (uriTemplate : String) : IsLiteral uriTemplate (literal uriTemplate) := by
  have hsplit := List.takeWhile_append_dropWhile (p := (· ≠ '{')) (l := uriTemplate.toList)
  have hhead := List.head?_dropWhile_not (· ≠ '{') uriTemplate.toList
  refine ⟨fun h => by simpa using List.mem_takeWhile_imp h, ?_⟩
  unfold literal
  cases hd : uriTemplate.toList.dropWhile (· ≠ '{') with
  | nil =>
    rw [hd, List.append_nil] at hsplit
    exact .inl hsplit.symm
  | cons c rest =>
    rw [hd] at hsplit hhead
    have hc : c = '{' := by simpa using hhead
    exact .inr ⟨rest, hc ▸ hsplit.symm⟩

theorem literal_eq_iff {uriTemplate : String} {l : List Char} :
    literal uriTemplate = l ↔ IsLiteral uriTemplate l := by
  constructor
  · rintro rfl
    exact isLiteral_literal uriTemplate
  · rintro ⟨hl, h⟩
    have hp : ∀ c ∈ l, decide (c ≠ '{') = true := fun c hc =>
      decide_eq_true fun heq => hl (heq ▸ hc)
    rcases h with h | ⟨rest, h⟩
    · rw [literal, h, List.takeWhile_eq_self_iff]
      exact hp
    · rw [literal, h, List.takeWhile_append_of_pos hp, List.takeWhile_cons_of_neg (by decide),
        List.append_nil]

/-- A template with its reader. -/
abbrev Entry := ResourceTemplate × ResourceReader

namespace Entry

def literal (e : Entry) : List Char := ResourceRegistry.literal e.1.uriTemplate

/-- Templates are of one group if their literal parts are equal. -/
def group (e : Entry) : String := String.ofList e.literal

/-- The literal part of the template begins the URI. -/
def Fits (uri : String) (e : Entry) : Prop := e.literal <+: uri.toList

instance (uri : String) (e : Entry) : Decidable (e.Fits uri) :=
  inferInstanceAs (Decidable (_ <+: _))

/-- Of two literal parts of one URI that are equally long, one is the other. -/
theorem Fits.group_eq {uri : String} {e t : Entry} (he : e.Fits uri) (ht : t.Fits uri)
    (h : e.literal.length = t.literal.length) : e.group = t.group :=
  congrArg String.ofList ((List.prefix_of_prefix_length_le he ht h.le).eq_of_length h)

theorem literal_eq_of_group {e t : Entry} (h : e.group = t.group) : e.literal = t.literal :=
  String.ofList_inj.mp h

theorem Fits.of_group {uri : String} {e t : Entry} (he : e.Fits uri) (h : e.group = t.group) :
    t.Fits uri := by
  rw [Fits, ← literal_eq_of_group h]
  exact he

theorem group_of_template {e t : Entry} (h : e.1.uriTemplate = t.1.uriTemplate) :
    e.group = t.group :=
  congrArg (fun s => String.ofList (ResourceRegistry.literal s)) h

end Entry

/-- Of the registrations `ts` of templates, in their order, `e` is the one for the URI. The
literal parts that are compared all begin the URI, so it is one whether characters or bytes are
counted. -/
structure Chosen (ts : List Entry) (uri : String) (e : Entry) : Prop where
  fits : e.Fits uri
  longest : ∀ t ∈ ts, t.Fits uri → t.literal.length ≤ e.literal.length
  /-- Of the templates with the same literal part it is the last one. -/
  latest : last? Entry.group ts e.group = some e

section

variable {ts bs : List Entry} {uri : String} {e t : Entry}

theorem Chosen.mem (h : Chosen ts uri e) : e ∈ ts := (last?_eq_some h.latest).1

theorem Chosen.unique (he : Chosen ts uri e) (ht : Chosen ts uri t) : e = t := by
  have hl : e.literal.length = t.literal.length :=
    Nat.le_antisymm (ht.longest e he.mem he.fits) (he.longest t ht.mem ht.fits)
  have hlast := he.latest
  rw [he.fits.group_eq ht.fits hl, ht.latest] at hlast
  exact (Option.some_inj.mp hlast).symm

/-- One more template is chosen if it fits and no longer one has been chosen before. -/
theorem chosen_concat_self (ht : t.Fits uri)
    (h : ∀ b ∈ ts, b.Fits uri → b.literal.length ≤ t.literal.length) :
    Chosen (ts ++ [t]) uri t := by
  refine ⟨ht, fun b hb hf => ?_, ?_⟩
  · rcases List.mem_append.mp hb with hb | hb
    · exact h b hb hf
    · rw [List.mem_singleton.mp hb]
  · rw [last?_concat, if_pos rfl]

/-- The choice stays as it is when a template is added that does not fit or is shorter. -/
theorem Chosen.concat (h : Chosen ts uri e)
    (ht : t.Fits uri → t.literal.length < e.literal.length) : Chosen (ts ++ [t]) uri e := by
  refine ⟨h.fits, fun b hb hf => ?_, ?_⟩
  · rcases List.mem_append.mp hb with hb | hb
    · exact h.longest b hb hf
    · rw [List.mem_singleton.mp hb] at hf ⊢
      exact (ht hf).le
  · have hne : e.group ≠ t.group := fun heq => by
      have hlt := ht (h.fits.of_group heq)
      rw [Entry.literal_eq_of_group heq] at hlt
      exact Nat.lt_irrefl _ hlt
    rw [last?_concat, if_neg hne, h.latest]

/-! ### What the list chooses -/

/-- The length of the literal part of a template that fits, with its reader. -/
def candidate? (uri : String) (e : Entry) : Option (Nat × ResourceReader) :=
  if e.literal.isPrefixOf uri.toList then some (e.literal.length, e.2) else none

theorem candidate?_of_fits (h : e.Fits uri) : candidate? uri e = some (e.literal.length, e.2) :=
  if_pos (List.isPrefixOf_iff_prefix.mpr h)

theorem candidate?_of_not_fits (h : ¬ e.Fits uri) : candidate? uri e = none :=
  if_neg fun hp => h (List.isPrefixOf_iff_prefix.mp hp)

/-- What the templates so far have come to. -/
inductive Standing (ts : List Entry) (uri : String) : Option (Nat × ResourceReader) → Prop
  | none (h : ∀ t ∈ ts, ¬ t.Fits uri) : Standing ts uri none
  | some {e : Entry} (h : Chosen ts uri e) : Standing ts uri (some (e.literal.length, e.2))

/-- The longest candidate so far is compared with one template after the other. -/
theorem standing_foldl (ts : List Entry) (uri : String) :
    Standing ts uri ((ts.filterMap (candidate? uri)).foldl longer none) := by
  induction ts using List.reverseRecOn with
  | nil => exact .none nofun
  | append_singleton ts t ih =>
    rw [List.filterMap_append, List.foldl_append]
    generalize (ts.filterMap (candidate? uri)).foldl longer none = best at ih
    by_cases ht : t.Fits uri
    · rw [List.filterMap_cons_some (candidate?_of_fits ht), List.filterMap_nil, List.foldl_cons,
        List.foldl_nil]
      cases ih with
      | none h => exact .some (chosen_concat_self ht fun b hb hf => absurd hf (h b hb))
      | @some e h =>
        rw [longer]
        split
        · rename_i hle
          exact .some (chosen_concat_self ht fun b hb hf => (h.longest b hb hf).trans hle)
        · rename_i hle
          exact .some (h.concat fun _ => Nat.lt_of_not_le hle)
    · rw [List.filterMap_cons_none (candidate?_of_not_fits ht), List.filterMap_nil, List.foldl_nil]
      cases ih with
      | none h =>
        refine .none fun b hb => ?_
        rcases List.mem_append.mp hb with hb | hb
        · exact h b hb
        · exact List.mem_singleton.mp hb ▸ ht
      | some h => exact .some (h.concat fun hf => absurd hf ht)

theorem templateReader?_eq (r : ResourceRegistry) (uri : String) :
    r.templateReader? uri =
      ((r.templates.entries.filterMap (candidate? uri)).foldl longer none).map Prod.snd := rfl

/-- Of every template that was registered the list has one with the same literal part. -/
theorem exists_listed {is : List Item} (ht : t ∈ is.filterMap Item.template?) :
    ∃ b : Entry, b ∈ (ofItems is).templates.entries ∧ b.group = t.group := by
  have hk : t.1.uriTemplate ∈ (is.filterMap Item.template?).map (·.1.uriTemplate) :=
    List.mem_map_of_mem (f := (·.1.uriTemplate)) ht
  rw [← List.mem_dedup, ← (lasting_templates is).1.keys] at hk
  obtain ⟨b, hb, hbt⟩ := List.mem_map.mp hk
  exact ⟨b, hb, Entry.group_of_template hbt⟩

/-- The list of a registry and the history of its registrations choose the same template. -/
theorem chosen_entries_iff (is : List Item) (uri : String) (e : Entry) :
    Chosen (ofItems is).templates.entries uri e ↔
      Chosen (is.filterMap Item.template?) uri e := by
  have hlasting := (lasting_templates is).1
  have hlast (k : String) : last? Entry.group (ofItems is).templates.entries k =
      last? Entry.group (is.filterMap Item.template?) k := by
    rw [entries_ofItems]
    exact last?_enlisted (fun _ _ => Entry.group_of_template) _ k
  constructor
  · intro h
    refine ⟨h.fits, fun t ht hf => ?_, hlast _ ▸ h.latest⟩
    obtain ⟨b, hb, hbt⟩ := exists_listed ht
    rw [← Entry.literal_eq_of_group hbt]
    exact h.longest b hb (hf.of_group hbt.symm)
  · intro h
    refine ⟨h.fits, fun b hb hf => ?_, (hlast _).trans h.latest⟩
    exact h.longest b (last?_eq_some (hlasting.last b hb)).1 hf

/-- The template that a registry reads a URI with, if no resource has it. -/
theorem templateReader?_ofItems (is : List Item) (uri : String) :
    (∃ e, Chosen (is.filterMap Item.template?) uri e ∧
        (ofItems is).templateReader? uri = some e.2) ∨
      (∀ t ∈ is.filterMap Item.template?, ¬ Entry.Fits uri t) ∧
        (ofItems is).templateReader? uri = none := by
  rw [templateReader?_eq]
  have hs := standing_foldl (ofItems is).templates.entries uri
  generalize ((ofItems is).templates.entries.filterMap (candidate? uri)).foldl longer none = best
    at hs
  cases hs with
  | some h => exact .inl ⟨_, (chosen_entries_iff is uri _).mp h, rfl⟩
  | none h =>
    refine .inr ⟨fun t ht hf => ?_, rfl⟩
    obtain ⟨b, hb, hbt⟩ := exists_listed ht
    exact h b hb (hf.of_group hbt.symm)

end

/-! ### What a URI is resolved to -/

/-- The reader for the URI after the registrations `is`. -/
inductive Resolves (is : List Item) (uri : String) : Option ResourceReader → Prop
  | resource {r : Resource × ResourceReader}
      (hr : last? (·.1.uri) (is.filterMap Item.resource?) uri = some r) :
      Resolves is uri (some r.2)
  | template {e : Entry} (hr : ∀ r ∈ is.filterMap Item.resource?, r.1.uri ≠ uri)
      (he : Chosen (is.filterMap Item.template?) uri e) : Resolves is uri (some e.2)
  | unknown (hr : ∀ r ∈ is.filterMap Item.resource?, r.1.uri ≠ uri)
      (he : ∀ e ∈ is.filterMap Item.template?, ¬ Entry.Fits uri e) : Resolves is uri none

section

variable {is js : List Item} {uri : String} {o : Option ResourceReader}

theorem reader?_ofItems (is : List Item) (uri : String) :
    (ofItems is).reader? uri =
      ((last? (·.1.uri) (is.filterMap Item.resource?) uri).map Prod.snd).or
        ((ofItems is).templateReader? uri) := by
  rw [reader?, resources_ofItems, Catalogue.handler?_ofItems]

theorem last?_resource_eq_none :
    last? (·.1.uri) (is.filterMap Item.resource?) uri = none ↔
      ∀ r ∈ is.filterMap Item.resource?, r.1.uri ≠ uri := by
  rw [last?_eq_none]
  simp only [List.mem_map, not_exists, not_and, ne_eq]

theorem resolves_reader? (is : List Item) (uri : String) :
    Resolves is uri ((ofItems is).reader? uri) := by
  rw [reader?_ofItems]
  cases hr : last? (·.1.uri) (is.filterMap Item.resource?) uri with
  | some r => exact .resource hr
  | none =>
    rw [Option.map_none, Option.none_or]
    have hr := last?_resource_eq_none.mp hr
    rcases templateReader?_ofItems is uri with ⟨e, he, ht⟩ | ⟨he, ht⟩
    · exact ht ▸ .template hr he
    · exact ht ▸ .unknown hr he

/-- The cases exclude each other, and in each of them the reader is determined. -/
theorem Resolves.unique {p : Option ResourceReader} (ho : Resolves is uri o)
    (hp : Resolves is uri p) : o = p := by
  cases ho with
  | @resource r hr =>
    cases hp with
    | resource hr' => rw [Option.some_inj.mp (hr.symm.trans hr')]
    | template hn | unknown hn =>
      rw [last?_resource_eq_none.mpr hn] at hr
      cases hr
  | template hn he =>
    cases hp with
    | resource hr =>
      rw [last?_resource_eq_none.mpr hn] at hr
      cases hr
    | template _ he' => rw [he.unique he']
    | unknown _ hf => exact absurd he.fits (hf _ he.mem)
  | unknown hn hf =>
    cases hp with
    | resource hr =>
      rw [last?_resource_eq_none.mpr hn] at hr
      cases hr
    | template _ he => exact absurd he.fits (hf _ he.mem)
    | unknown => rfl

theorem reader?_eq_iff : (ofItems is).reader? uri = o ↔ Resolves is uri o :=
  ⟨fun h => h ▸ resolves_reader? is uri, fun h => (resolves_reader? is uri).unique h⟩

/-! ### The order of the registrations -/

/-- The same resources and templates are registered in the end, in whatever order. -/
structure Same (is js : List Item) : Prop where
  resources : ∀ k, last? (·.1.uri) (is.filterMap Item.resource?) k =
    last? (·.1.uri) (js.filterMap Item.resource?) k
  templates : ∀ k, last? (·.1.uriTemplate) (is.filterMap Item.template?) k =
    last? (·.1.uriTemplate) (js.filterMap Item.template?) k

/-- Different templates have different literal parts. -/
def Apart (is : List Item) : Prop :=
  ∀ e ∈ is.filterMap Item.template?, ∀ t ∈ is.filterMap Item.template?,
    Entry.literal e = Entry.literal t → e.1.uriTemplate = t.1.uriTemplate

instance (is : List Item) : Decidable (Apart is) := inferInstanceAs (Decidable (∀ _ ∈ _, _))

theorem Same.symm (h : Same is js) : Same js is :=
  ⟨fun k => (h.resources k).symm, fun k => (h.templates k).symm⟩

/-- Registrations of which no two replace each other may come in any order. -/
theorem same_of_perm (h : is.Perm js)
    (hr : ((is.filterMap Item.resource?).map (·.1.uri)).Nodup)
    (ht : ((is.filterMap Item.template?).map (·.1.uriTemplate)).Nodup) : Same is js :=
  ⟨last?_perm (h.filterMap _) hr, last?_perm (h.filterMap _) ht⟩

/-- A template that is registered twice has the same literal part twice. -/
theorem nodup_of_nodup_literal {ts : List Entry} (h : (ts.map Entry.literal).Nodup) :
    (ts.map (·.1.uriTemplate)).Nodup := by
  rw [List.Nodup, List.pairwise_map] at h ⊢
  exact h.imp fun hne heq => hne (Entry.literal_eq_of_group (Entry.group_of_template heq))

theorem apart_of_nodup_literal (h : ((is.filterMap Item.template?).map Entry.literal).Nodup) :
    Apart is := by
  intro e he t ht hl
  rw [List.inj_on_of_nodup_map h he ht hl]

theorem Same.template_mem (h : Same is js) {t : Entry} (ht : t ∈ is.filterMap Item.template?) :
    ∃ b ∈ js.filterMap Item.template?, b.1.uriTemplate = t.1.uriTemplate := by
  have hk := List.mem_map_of_mem (f := (·.1.uriTemplate)) ht
  have hn : last? (·.1.uriTemplate) (is.filterMap Item.template?) t.1.uriTemplate ≠ none :=
    fun hn => last?_eq_none.mp hn hk
  rw [h.templates] at hn
  obtain ⟨b, hb⟩ := Option.ne_none_iff_exists'.mp hn
  exact ⟨b, last?_eq_some hb⟩

theorem Apart.of_same (ha : Apart is) (h : Same is js) : Apart js := by
  intro e he t ht hl
  obtain ⟨b, hb, hbe⟩ := h.symm.template_mem he
  obtain ⟨c, hc, hct⟩ := h.symm.template_mem ht
  rw [← hbe, ← hct]
  refine ha b hb c hc ?_
  rw [Entry.literal_eq_of_group (Entry.group_of_template hbe),
    Entry.literal_eq_of_group (Entry.group_of_template hct)]
  exact hl

/-- Where templates are apart, the last one with some literal part is the last one of a template. -/
theorem Apart.last?_eq (ha : Apart is) {e : Entry} (he : e ∈ is.filterMap Item.template?) :
    last? Entry.group (is.filterMap Item.template?) e.group =
      last? (·.1.uriTemplate) (is.filterMap Item.template?) e.1.uriTemplate := by
  refine congrArg List.getLast? (List.filter_congr fun t ht => ?_)
  rw [Bool.eq_iff_iff, beq_iff_eq, beq_iff_eq]
  exact ⟨fun h => ha t ht e he (Entry.literal_eq_of_group h), Entry.group_of_template⟩

theorem Chosen.of_same {e : Entry} (he : Chosen (is.filterMap Item.template?) uri e)
    (ha : Apart is) (h : Same is js) : Chosen (js.filterMap Item.template?) uri e := by
  have hlast : last? (·.1.uriTemplate) (js.filterMap Item.template?) e.1.uriTemplate = some e := by
    rw [← h.templates, ← ha.last?_eq he.mem]
    exact he.latest
  refine ⟨he.fits, fun t ht hf => ?_, ?_⟩
  · obtain ⟨b, hb, hbt⟩ := h.symm.template_mem ht
    have hg := Entry.group_of_template hbt
    rw [← Entry.literal_eq_of_group hg]
    exact he.longest b hb (hf.of_group hg.symm)
  · rw [(ha.of_same h).last?_eq (last?_eq_some hlast).1]
    exact hlast

theorem Resolves.of_same (ho : Resolves is uri o) (ha : Apart is) (h : Same is js) :
    Resolves js uri o := by
  have aside (hr : ∀ r ∈ is.filterMap Item.resource?, r.1.uri ≠ uri) :
      ∀ r ∈ js.filterMap Item.resource?, r.1.uri ≠ uri := by
    rw [← last?_resource_eq_none] at hr ⊢
    exact (h.resources uri).symm.trans hr
  cases ho with
  | resource hr => exact .resource ((h.resources uri).symm.trans hr)
  | template hr he => exact .template (aside hr) (he.of_same ha h)
  | unknown hr he =>
    refine .unknown (aside hr) fun t ht hf => ?_
    obtain ⟨b, hb, hbt⟩ := h.symm.template_mem ht
    exact he b hb (hf.of_group (Entry.group_of_template hbt).symm)

end

/-- How a registry resolves URIs after the registrations `is`. -/
structure Resolved (is : List Item) : Prop where
  /-- Exactly one of the cases holds, and it determines the reader, if there is one. -/
  reader : ∀ uri o, (ofItems is).reader? uri = o ↔ Resolves is uri o
  read : ∀ uri o, Resolves is uri o → (ofItems is).provider.read uri =
    o.elim (.failure (.notFound "resource_not_found" ("unknown resource: " ++ uri)))
      fun reader => reader uri
  /-- What is looked for at the beginning of a URI is the text before the first brace. -/
  literal : ∀ e l, Entry.literal e = l ↔ IsLiteral e.1.uriTemplate l
  /-- The choice is the same among what is listed in the end. -/
  listed : ∀ uri e, Chosen (ofItems is).templates.entries uri e ↔
    Chosen (is.filterMap Item.template?) uri e
  /-- Where no two templates have the same literal part, the order has no say. -/
  order : Apart is → ∀ js, Same is js → (ofItems js).provider.read = (ofItems is).provider.read
  /-- In particular registrations with pairwise different literal parts may come in any order, if no
  resource replaces another. -/
  reordered : ((is.filterMap Item.template?).map Entry.literal).Nodup →
    ((is.filterMap Item.resource?).map (·.1.uri)).Nodup →
    ∀ js, is.Perm js → (ofItems js).provider.read = (ofItems is).provider.read

theorem read_of_resolves {is : List Item} {uri : String} {o : Option ResourceReader}
    (h : Resolves is uri o) : (ofItems is).provider.read uri =
      o.elim (.failure (.notFound "resource_not_found" ("unknown resource: " ++ uri)))
        fun reader => reader uri := by
  show (ofItems is).read uri = _
  rw [read, reader?_eq_iff.mpr h]
  cases o <;> rfl

theorem read_of_same {is js : List Item} (ha : Apart is) (h : Same is js) :
    (ofItems js).provider.read = (ofItems is).provider.read := by
  funext uri
  have ho := resolves_reader? is uri
  rw [read_of_resolves ho, read_of_resolves (ho.of_same ha h)]

theorem resolved_of_registrations (is : List Item) : Resolved is := by
  constructor
  · exact fun uri o => reader?_eq_iff
  · exact fun uri o => read_of_resolves
  · exact fun e l => literal_eq_iff
  · exact chosen_entries_iff is
  · exact fun ha js => read_of_same ha
  · intro hl hr js h
    exact read_of_same (apart_of_nodup_literal hl)
      (same_of_perm h hr (nodup_of_nodup_literal hl))

/-- Templates with literal parts that overlap, one of them registered again, and a resource. -/
def overlapping : List Item :=
  [.template ⟨"file:///{path}", "Files", none, none⟩ (Canned.textResource "a file"),
    .template ⟨"file:///docs/{page}", "Pages", none, none⟩ (Canned.textResource "a page"),
    .resource ⟨"file:///docs/index", "Index", none, none⟩ (Canned.textResource "the index"),
    .template ⟨"file:///docs/{chapter}", "Chapters", none, none⟩ (Canned.textResource "a chapter"),
    .template ⟨"file:///docs/{page}", "Pages", none, none⟩ (Canned.textResource "a new page")]

/-- Without those that come again. -/
def disjoint : List Item := overlapping.take 3

theorem resolved_of_registrations_overlapping :
    (ofItems overlapping).provider.read "file:///docs/one" =
        .value (.plainText "file:///docs/one" "a new page") ∧
      Apart disjoint ∧ Same disjoint disjoint.reverse ∧
      (ofItems disjoint.reverse).provider.read = (ofItems disjoint).provider.read := by
  have hchosen : Chosen (overlapping.filterMap Item.template?) "file:///docs/one"
      (⟨"file:///docs/{page}", "Pages", none, none⟩, Canned.textResource "a new page") :=
    ⟨by decide, by decide, rfl⟩
  have hread := (resolved_of_registrations overlapping).read "file:///docs/one" _
    (.template (by decide) hchosen)
  have hapart : Apart disjoint := by decide
  have hsame : Same disjoint disjoint.reverse :=
    same_of_perm (List.reverse_perm _).symm (by decide) (by decide)
  exact ⟨hread, hapart, hsame, (resolved_of_registrations disjoint).order hapart _ hsame⟩

end ResourceRegistry
end ContextServer
