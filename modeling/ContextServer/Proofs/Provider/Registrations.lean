import Mathlib.Data.List.Dedup
import Mathlib.Data.List.Induction
import ContextServer.Provider.Canned
import ContextServer.Proofs.Codec.Record

/-!
What a registry comes to after any registrations. The list of descriptors and the table of handlers
are kept apart, and each of them holds what the last registration of a key has put there: the list
in the order in which those were made (`lasting_enlisted`), the table whatever the order
(`Catalogue.handler?_ofItems`). So a key that is listed is answered by the handler that came with
its descriptor, any other by nobody (`Catalogue.serves`), and what a key is answered by depends on
the registrations of that key alone (`Serves.answers_eq`).
-/

namespace ContextServer

/-! ### Last registrations -/

section

variable {α : Type} {key : α → String} {as bs : List α} {a : α} {k : String}

/-- The last item of a key. -/
def last? (key : α → String) (as : List α) (k : String) : Option α :=
  (as.filter (key · == k)).getLast?

/-- `bs` has the last item of each key of `as`, once, in the order in which those stand in `as`:
`dedup` keeps the last of equal ones. -/
structure Lasting (key : α → String) (as bs : List α) : Prop where
  keys : bs.map key = (as.map key).dedup
  last : ∀ b ∈ bs, last? key as (key b) = some b

/-- The list that comes of all items, one after the other. -/
def enlisted (key : α → String) (as : List α) : List α := as.foldl (enlist key) []

theorem enlisted_concat (as : List α) (a : α) :
    enlisted key (as ++ [a]) = enlist key (enlisted key as) a := List.foldl_concat ..

theorem last?_concat :
    last? key (as ++ [a]) k = if k = key a then some a else last? key as k := by
  rw [last?, List.filter_append, List.filter_singleton]
  by_cases hk : k = key a
  · rw [if_pos hk, hk, beq_self_eq_true, cond_true, List.getLast?_concat]
  · rw [if_neg hk, beq_eq_false_iff_ne.mpr (Ne.symm hk), cond_false, List.append_nil, last?]

theorem last?_eq_some (h : last? key as k = some a) : a ∈ as ∧ key a = k := by
  have hmem := List.mem_filter.mp (List.mem_of_getLast? h)
  exact ⟨hmem.1, beq_iff_eq.mp hmem.2⟩

theorem last?_eq_none : last? key as k = none ↔ k ∉ as.map key := by
  rw [last?, List.getLast?_eq_none_iff, List.filter_eq_nil_iff]
  simp only [beq_iff_eq, List.mem_map, not_exists, not_and]

theorem dedup_concat (l : List String) (k : String) :
    (l ++ [k]).dedup = l.dedup.filter (· != k) ++ [k] := by
  induction l with
  | nil => rfl
  | cons x l ih =>
    rw [List.cons_append]
    by_cases hk : x = k
    · rw [hk, List.dedup_cons_of_mem (by simp), ih]
      by_cases hl : k ∈ l
      · rw [List.dedup_cons_of_mem hl]
      · rw [List.dedup_cons_of_notMem hl, List.filter_cons_of_neg (by simp)]
    · by_cases hl : x ∈ l
      · rw [List.dedup_cons_of_mem (List.mem_append_left _ hl), List.dedup_cons_of_mem hl, ih]
      · rw [List.dedup_cons_of_notMem (by simp [hl, hk]), List.dedup_cons_of_notMem hl, ih,
          List.filter_cons_of_pos (by simp [hk]), List.cons_append]

theorem map_enlist : (enlist key bs a).map key = (bs.map key).filter (· != key a) ++ [key a] := by
  rw [enlist, List.map_append, List.filter_map]
  rfl

/-- One more item replaces the earlier one of its key. -/
theorem Lasting.enlist (h : Lasting key as bs) (a : α) :
    Lasting key (as ++ [a]) (enlist key bs a) := by
  constructor
  · rw [map_enlist, h.keys, List.map_append, List.map_singleton, dedup_concat]
  · intro b hb
    rw [last?_concat]
    rcases List.mem_append.mp hb with hb | hb
    · obtain ⟨hb, hne⟩ := List.mem_filter.mp hb
      rw [if_neg (bne_iff_ne.mp hne), h.last b hb]
    · rw [List.mem_singleton.mp hb, if_pos rfl]

theorem lasting_enlisted (key : α → String) (as : List α) : Lasting key as (enlisted key as) := by
  induction as using List.reverseRecOn with
  | nil => exact ⟨rfl, nofun⟩
  | append_singleton as a ih =>
    rw [enlisted_concat]
    exact ih.enlist a

/-- Every item that is the last one of its key has been kept. -/
theorem Lasting.mem_of_last (h : Lasting key as bs) (ha : last? key as k = some a) :
    a ∈ bs ∧ key a = k := by
  obtain ⟨hmem, rfl⟩ := last?_eq_some ha
  have hkey : key a ∈ bs.map key := by
    rw [h.keys, List.mem_dedup]
    exact List.mem_map_of_mem hmem
  obtain ⟨b, hb, hkb⟩ := List.mem_map.mp hkey
  have hlast := h.last b hb
  rw [hkb, ha] at hlast
  exact ⟨Option.some_inj.mp hlast ▸ hb, rfl⟩

/-- The same items of each key, in the same order; those of different keys may have changed
places. -/
def Rearranged (key : α → String) (as bs : List α) : Prop :=
  ∀ k, as.filter (key · == k) = bs.filter (key · == k)

theorem Rearranged.last?_eq (h : Rearranged key as bs) (k : String) :
    last? key as k = last? key bs k := by
  rw [last?, last?, h k]

/-- However the items are arranged, the last one of a key is kept. -/
theorem Rearranged.lasting {cs ds : List α} (h : Rearranged key as cs) (hb : Lasting key as bs)
    (hd : Lasting key cs ds) (k : String) :
    (∃ a ∈ bs, a ∈ ds ∧ key a = k) ∨ k ∉ bs.map key ∧ k ∉ ds.map key := by
  cases hlast : last? key as k with
  | some a =>
    obtain ⟨hab, hk⟩ := hb.mem_of_last hlast
    obtain ⟨had, -⟩ := hd.mem_of_last ((h.last?_eq k).symm.trans hlast)
    exact .inl ⟨a, hab, had, hk⟩
  | none =>
    rw [hb.keys, hd.keys, List.mem_dedup, List.mem_dedup, ← last?_eq_none, ← last?_eq_none,
      ← h.last?_eq k]
    exact .inr ⟨hlast, hlast⟩

theorem Rearranged.map {γ : Type} {f : γ → α} {cs ds : List γ}
    (h : Rearranged (fun c => key (f c)) cs ds) : Rearranged key (cs.map f) (ds.map f) := by
  intro k
  rw [List.filter_map, List.filter_map]
  exact congrArg (List.map f) (h k)

/-- Neighbours of different keys change places. -/
theorem rearranged_swap {b : α} (hab : key a ≠ key b) (before after : List α) :
    Rearranged key (before ++ a :: b :: after) (before ++ b :: a :: after) := by
  intro k
  rw [List.filter_append, List.filter_append]
  refine congrArg _ ?_
  by_cases ha : key a = k
  · have hb : ¬ key b = k := fun hb => hab (ha.trans hb.symm)
    simp [ha, hb]
  · simp [List.filter_cons, ha]

end

/-! ### Catalogues -/

section

variable {δ η β : Type} {key : δ → String} {rs ss : List (δ × η)} {k : String}

namespace Catalogue

/-- The catalogue of these registrations, made one after the other. -/
def ofItems (key : δ → String) (rs : List (δ × η)) : Catalogue δ η :=
  rs.foldl (fun c r => c.register key r.1 r.2) .empty

theorem ofItems_concat (rs : List (δ × η)) (r : δ × η) :
    ofItems key (rs ++ [r]) = (ofItems key rs).register key r.1 r.2 := List.foldl_concat ..

theorem handler?_register (c : Catalogue δ η) (d : δ) (h : η) (k : String) :
    (c.register key d h).handler? k = if k = key d then some h else c.handler? k := by
  rw [handler?, register]
  by_cases hk : k = key d
  · rw [if_pos hk, Members.lookup_head (m := (key d, h)) hk]
  · rw [if_neg hk, Members.lookup_tail (m := (key d, h)) hk, Members.lookup_filter_ne hk, handler?]

theorem listing_ofItems (key : δ → String) (rs : List (δ × η)) :
    (ofItems key rs).listing = (enlisted (key ·.1) rs).map Prod.fst := by
  induction rs using List.reverseRecOn with
  | nil => rfl
  | append_singleton rs r ih =>
    rw [ofItems_concat, enlisted_concat, register, ih, enlist, enlist, List.map_append,
      List.filter_map]
    rfl

theorem handler?_ofItems (key : δ → String) (rs : List (δ × η)) (k : String) :
    (ofItems key rs).handler? k = (last? (key ·.1) rs k).map Prod.snd := by
  induction rs using List.reverseRecOn with
  | nil => rfl
  | append_singleton rs r ih =>
    rw [ofItems_concat, handler?_register, ih, last?_concat]
    split <;> rfl

end Catalogue

/-- How a provider serves the registrations `rs`, of which the last ones of each key are `es`:
those are listed, and a call of one of their keys is a run of the handler registered with it. -/
structure Serves (key : δ → String) (rs es : List (δ × η)) (list : Promise (List δ))
    (handler? : String → Option η) (run : String → η → β) (missing answer : String → β) :
    Prop where
  lasting : Lasting (key ·.1) rs es
  listed : list = .value (es.map Prod.fst)
  handled : ∀ e ∈ es, handler? (key e.1) = some e.2
  unhandled : ∀ k, k ∉ es.map (key ·.1) → handler? k = none
  answered : ∀ e ∈ es, answer (key e.1) = run (key e.1) e.2
  unanswered : ∀ k, k ∉ es.map (key ·.1) → answer k = missing k

/-- The list and the table are in step after any registrations. -/
theorem Catalogue.serves (key : δ → String) (rs : List (δ × η)) {run : String → η → β}
    {missing answer : String → β}
    (h : ∀ k, answer k = ((ofItems key rs).handler? k).elim (missing k) (run k)) :
    Serves key rs (enlisted (key ·.1) rs) (.value (ofItems key rs).listing)
      (ofItems key rs).handler? run missing answer := by
  have hlasting := lasting_enlisted (key ·.1) rs
  have hsome (e : δ × η) (he : e ∈ enlisted (key ·.1) rs) :
      (ofItems key rs).handler? (key e.1) = some e.2 := by
    rw [handler?_ofItems, hlasting.last e he, Option.map_some]
  have hnone (k : String) (hk : k ∉ (enlisted (key ·.1) rs).map (key ·.1)) :
      (ofItems key rs).handler? k = none := by
    rw [hlasting.keys, List.mem_dedup] at hk
    rw [handler?_ofItems, last?_eq_none.mpr hk, Option.map_none]
  constructor
  · exact hlasting
  · rw [listing_ofItems]
  · exact hsome
  · exact hnone
  · intro e he
    rw [h, hsome e he, Option.elim_some]
  · intro k hk
    rw [h, hnone k hk, Option.elim_none]

namespace Serves

variable {es fs : List (δ × η)} {l₁ l₂ : Promise (List δ)} {h₁ h₂ : String → Option η}
  {run : String → η → β} {m m₁ m₂ a₁ a₂ : String → β}

theorem handler?_eq (hr : Serves key rs es l₁ h₁ run m₁ a₁) (hs : Serves key ss fs l₂ h₂ run m₂ a₂)
    (h : Rearranged (key ·.1) rs ss) : h₁ = h₂ := by
  funext k
  rcases h.lasting hr.lasting hs.lasting k with ⟨e, he, hf, rfl⟩ | ⟨he, hf⟩
  · rw [hr.handled e he, hs.handled e hf]
  · rw [hr.unhandled k he, hs.unhandled k hf]

/-- A registered key is answered alike however the registrations are arranged. -/
theorem answer_eq (hr : Serves key rs es l₁ h₁ run m₁ a₁) (hs : Serves key ss fs l₂ h₂ run m₂ a₂)
    (h : Rearranged (key ·.1) rs ss) {k : String} (hk : k ∈ rs.map (key ·.1)) : a₁ k = a₂ k := by
  rcases h.lasting hr.lasting hs.lasting k with ⟨e, he, hf, rfl⟩ | ⟨he, -⟩
  · rw [hr.answered e he, hs.answered e hf]
  · rw [hr.lasting.keys, List.mem_dedup] at he
    exact absurd hk he

theorem answers_eq (hr : Serves key rs es l₁ h₁ run m a₁) (hs : Serves key ss fs l₂ h₂ run m a₂)
    (h : Rearranged (key ·.1) rs ss) : a₁ = a₂ := by
  funext k
  rcases h.lasting hr.lasting hs.lasting k with ⟨e, he, hf, rfl⟩ | ⟨he, hf⟩
  · rw [hr.answered e he, hs.answered e hf]
  · rw [hr.unanswered k he, hs.unanswered k hf]

end Serves

end

/-! ### Registries -/

namespace ToolRegistry

/-- A registration of a tool. -/
structure Item where
  name : String
  description : String
  schema : Json
  handler : ToolHandler

def Item.entry (i : Item) : Tool × ToolHandler :=
  (⟨i.name, some i.description, i.schema⟩, i.handler)

def ofItems (is : List Item) : ToolRegistry :=
  is.foldl (fun r i => r.add i.name i.description i.schema i.handler) .empty

theorem ofItems_eq (is : List Item) :
    ofItems is = Catalogue.ofItems Tool.name (is.map Item.entry) := by
  rw [Catalogue.ofItems, List.foldl_map]
  rfl

/-- The answer to an unknown name is a result, and says that it is an error. -/
theorem serves (is : List Item) :
    Serves Tool.name (is.map Item.entry) (enlisted (·.1.name) (is.map Item.entry))
      (ofItems is).provider.list (ofItems is).handler? (fun _ handler => handler)
      (fun name _ => .value ⟨[.text ("unknown tool: " ++ name)], true⟩)
      (ofItems is).provider.call := by
  rw [ofItems_eq]
  refine Catalogue.serves Tool.name _ fun k => ?_
  funext args
  show call (Catalogue.ofItems Tool.name (is.map Item.entry)) k args = _
  rw [call]
  cases (Catalogue.ofItems Tool.name (is.map Item.entry)).handler? k <;> rfl

end ToolRegistry

namespace PromptRegistry

def ofItems (is : List (Prompt × PromptRenderer)) : PromptRegistry :=
  is.foldl (fun r i => r.add i.1 i.2) .empty

theorem serves (is : List (Prompt × PromptRenderer)) :
    Serves Prompt.name is (enlisted (·.1.name) is) (ofItems is).provider.list
      (ofItems is).handler? (fun _ renderer => renderer)
      (fun name _ => .failure (.notFound "prompt_not_found" ("unknown prompt: " ++ name)))
      (ofItems is).provider.get := by
  show Serves _ _ _ _ (Catalogue.ofItems Prompt.name is).handler? _ _ _
  refine Catalogue.serves Prompt.name is fun k => ?_
  funext args
  show get (Catalogue.ofItems Prompt.name is) k args = _
  rw [get]
  cases (Catalogue.ofItems Prompt.name is).handler? k <;> rfl

end PromptRegistry

namespace ResourceRegistry

/-- A registration of a resource or of a template. -/
inductive Item
  | resource (d : Resource) (reader : ResourceReader)
  | template (d : ResourceTemplate) (reader : ResourceReader)

def Item.resource? : Item → Option (Resource × ResourceReader)
  | resource d reader => some (d, reader)
  | template _ _ => none

def Item.template? : Item → Option (ResourceTemplate × ResourceReader)
  | resource _ _ => none
  | template d reader => some (d, reader)

def addItem (r : ResourceRegistry) : Item → ResourceRegistry
  | .resource d reader => r.add d reader
  | .template d reader => r.addTemplate d reader

def ofItems (is : List Item) : ResourceRegistry := is.foldl addItem .empty

theorem ofItems_concat (is : List Item) (i : Item) :
    ofItems (is ++ [i]) = (ofItems is).addItem i := List.foldl_concat ..

/-- Resources and templates do not get in each other's way. -/
theorem resources_ofItems (is : List Item) :
    (ofItems is).resources = Catalogue.ofItems Resource.uri (is.filterMap Item.resource?) := by
  induction is using List.reverseRecOn with
  | nil => rfl
  | append_singleton is i ih =>
    rw [ofItems_concat, List.filterMap_append]
    cases i with
    | resource d reader =>
      show (ofItems is).resources.register Resource.uri d reader =
        Catalogue.ofItems _ (_ ++ [(d, reader)])
      rw [ih, Catalogue.ofItems_concat]
    | template d reader =>
      show (ofItems is).resources = Catalogue.ofItems _ (_ ++ [])
      rw [ih, List.append_nil]

theorem entries_ofItems (is : List Item) :
    (ofItems is).templates.entries = enlisted (·.1.uriTemplate) (is.filterMap Item.template?) := by
  induction is using List.reverseRecOn with
  | nil => rfl
  | append_singleton is i ih =>
    rw [ofItems_concat, List.filterMap_append]
    cases i with
    | resource d reader =>
      show (ofItems is).templates.entries = enlisted _ (_ ++ [])
      rw [ih, List.append_nil]
    | template d reader =>
      show enlist _ (ofItems is).templates.entries _ = enlisted _ (_ ++ [(d, reader)])
      rw [ih, enlisted_concat]

/-- What is left of the registry without its resources. -/
def onlyTemplates (r : ResourceRegistry) : ResourceRegistry := { r with resources := .empty }

theorem serves (is : List Item) :
    Serves Resource.uri (is.filterMap Item.resource?)
      (enlisted (·.1.uri) (is.filterMap Item.resource?)) (ofItems is).provider.list
      (ofItems is).resources.handler? (fun uri reader => reader uri)
      (ofItems is).onlyTemplates.provider.read (ofItems is).provider.read := by
  show Serves _ _ _ (.value (ofItems is).resources.listing) _ _ _ (ofItems is).read
  rw [resources_ofItems]
  refine Catalogue.serves Resource.uri _ fun k => ?_
  rw [read, reader?, resources_ofItems]
  cases Catalogue.handler? _ k <;> rfl

/-- The templates that are listed are the last ones of each pattern, with their readers. -/
theorem lasting_templates (is : List Item) :
    Lasting (·.1.uriTemplate) (is.filterMap Item.template?) (ofItems is).templates.entries ∧
      (ofItems is).provider.templates =
        .value ((ofItems is).templates.entries.map Prod.fst) := by
  constructor
  · rw [entries_ofItems]
    exact lasting_enlisted _ _
  · rfl

end ResourceRegistry

/-- What the registries come to after the registrations `ts`, `ps` and `rs`. -/
structure Served (ts : List ToolRegistry.Item) (ps : List (Prompt × PromptRenderer))
    (rs : List ResourceRegistry.Item) : Prop where
  tools : ∃ es, Serves Tool.name (ts.map ToolRegistry.Item.entry) es
    (ToolRegistry.ofItems ts).provider.list (ToolRegistry.ofItems ts).handler?
    (fun _ handler => handler)
    (fun name _ => .value ⟨[.text ("unknown tool: " ++ name)], true⟩)
    (ToolRegistry.ofItems ts).provider.call
  prompts : ∃ es, Serves Prompt.name ps es
    (PromptRegistry.ofItems ps).provider.list (PromptRegistry.ofItems ps).handler?
    (fun _ renderer => renderer)
    (fun name _ => .failure (.notFound "prompt_not_found" ("unknown prompt: " ++ name)))
    (PromptRegistry.ofItems ps).provider.get
  /-- A URI of no resource is left to the templates. -/
  resources : ∃ es, Serves Resource.uri (rs.filterMap ResourceRegistry.Item.resource?) es
    (ResourceRegistry.ofItems rs).provider.list (ResourceRegistry.ofItems rs).resources.handler?
    (fun uri reader => reader uri)
    (ResourceRegistry.ofItems rs).onlyTemplates.provider.read
    (ResourceRegistry.ofItems rs).provider.read
  templates : ∃ es, Lasting (·.1.uriTemplate)
      (rs.filterMap ResourceRegistry.Item.template?) es ∧
    (ResourceRegistry.ofItems rs).provider.templates = .value (es.map Prod.fst)
  calls : ∀ us, Rearranged ToolRegistry.Item.name ts us →
    (ToolRegistry.ofItems us).provider.call = (ToolRegistry.ofItems ts).provider.call
  gets : ∀ qs, Rearranged (·.1.name) ps qs →
    (PromptRegistry.ofItems qs).provider.get = (PromptRegistry.ofItems ps).provider.get
  reads : ∀ ss, Rearranged (·.1.uri) (rs.filterMap ResourceRegistry.Item.resource?)
      (ss.filterMap ResourceRegistry.Item.resource?) →
    (ResourceRegistry.ofItems ss).resources.handler? =
        (ResourceRegistry.ofItems rs).resources.handler? ∧
      ∀ uri ∈ (rs.filterMap ResourceRegistry.Item.resource?).map (·.1.uri),
        (ResourceRegistry.ofItems ss).provider.read uri =
          (ResourceRegistry.ofItems rs).provider.read uri

/-- After any registrations, whatever keys they repeat, the registries list and answer what was
registered last; and wherever registrations of different keys change places, the same name and the
same URI of a resource are answered in the same way. -/
theorem served_of_registrations (ts : List ToolRegistry.Item)
    (ps : List (Prompt × PromptRenderer)) (rs : List ResourceRegistry.Item) : Served ts ps rs := by
  have htools := ToolRegistry.serves
  have hprompts := PromptRegistry.serves
  have hresources := ResourceRegistry.serves
  constructor
  · exact ⟨_, htools ts⟩
  · exact ⟨_, hprompts ps⟩
  · exact ⟨_, hresources rs⟩
  · exact ⟨_, ResourceRegistry.lasting_templates rs⟩
  · intro us h
    have hitems : Rearranged (·.1.name) (ts.map ToolRegistry.Item.entry)
        (us.map ToolRegistry.Item.entry) := Rearranged.map h
    exact ((htools ts).answers_eq (htools us) hitems).symm
  · intro qs h
    exact ((hprompts ps).answers_eq (hprompts qs) h).symm
  · intro ss h
    refine ⟨((hresources rs).handler?_eq (hresources ss) h).symm, fun uri huri => ?_⟩
    exact ((hresources rs).answer_eq (hresources ss) h huri).symm

/-- A tool is registered again, and another one before that. -/
def registeredAgain : List ToolRegistry.Item :=
  [⟨"echo", "Echoes", .null, Canned.echoTool⟩, ⟨"clock", "Tells", .null, Canned.textTool "noon"⟩,
    ⟨"echo", "Shouts", .null, Canned.textTool "HELLO"⟩]

/-- The same, but the tool is registered again at once. -/
def registeredAtOnce : List ToolRegistry.Item :=
  [⟨"clock", "Tells", .null, Canned.textTool "noon"⟩, ⟨"echo", "Echoes", .null, Canned.echoTool⟩,
    ⟨"echo", "Shouts", .null, Canned.textTool "HELLO"⟩]

theorem served_of_registrations_again :
    (ToolRegistry.ofItems registeredAgain).listing.map Tool.name = ["clock", "echo"] ∧
      (ToolRegistry.ofItems registeredAgain).provider.call "echo" .null = .value (.text "HELLO") ∧
      Rearranged ToolRegistry.Item.name registeredAgain registeredAtOnce ∧
      (ToolRegistry.ofItems registeredAtOnce).provider.call =
        (ToolRegistry.ofItems registeredAgain).provider.call := by
  have hswap : Rearranged ToolRegistry.Item.name registeredAgain registeredAtOnce :=
    rearranged_swap (by decide) [] _
  have hcall := (served_of_registrations registeredAgain [] []).calls registeredAtOnce hswap
  exact ⟨by decide, rfl, hswap, hcall⟩

end ContextServer
