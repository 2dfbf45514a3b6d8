import ResendRouter.Configuration.Validation
import ResendRouter.Program.Router

/-! # Routing by the constraints as they are configured

The matcher filters its domain lists after the validation, and an empty list
means that there is no constraint. The two agree on which entries are empty, so
no constraint disappears.
-/

namespace ResendRouter.Routing
open Foundation Program ResendRouter.Configuration

variable {parseUrl : String → Except String String} {d : DestinationConfig}
  {event : ResendEventForRouting}

/-- The constraints of a destination as it is configured, each in force when its list is not
empty. -/
structure Satisfies (d : DestinationConfig) (event : ResendEventForRouting) : Prop where
  eventType : d.eventTypes ≠ [] → ∃ eventType ∈ event.eventType, eventType ∈ d.eventTypes
  fromDomain : d.fromDomains ≠ [] → ∃ domain ∈ event.fromDomain, ∃ entry ∈ d.fromDomains,
    normalizeDomain entry = some domain
  toDomain : d.toDomains ≠ [] → ∃ domain ∈ event.toDomains, ∃ entry ∈ d.toDomains,
    normalizeDomain entry = some domain

instance : Decidable (Satisfies d event) :=
  decidable_of_iff
    ((d.eventTypes ≠ [] → ∃ eventType ∈ event.eventType, eventType ∈ d.eventTypes) ∧
      (d.fromDomains ≠ [] → ∃ domain ∈ event.fromDomain, ∃ entry ∈ d.fromDomains,
        normalizeDomain entry = some domain) ∧
      (d.toDomains ≠ [] → ∃ domain ∈ event.toDomains, ∃ entry ∈ d.toDomains,
        normalizeDomain entry = some domain))
    ⟨fun h => ⟨h.1, h.2.1, h.2.2⟩, fun h => ⟨h.eventType, h.fromDomain, h.toDomain⟩⟩

/-- Where an event has to go. -/
def Routed (d : DestinationConfig) (event : ResendEventForRouting) : Prop :=
  d.catchAll = true ∨ Satisfies d event

instance : Decidable (Routed d event) := inferInstanceAs (Decidable (_ ∨ _))

@[simp] theorem isBlank_toAsciiLowercase (s : String) :
    isBlank (toAsciiLowercase s) = isBlank s := by
  simp [isBlank, toAsciiLowercase]

/-- Exactly the entries that the validation accepts are kept. -/
theorem normalizeDomain_isSome {domain : String} :
    (normalizeDomain domain).isSome = true ↔ SolidDomain domain := by
  simp [normalizeDomain, SolidDomain]

theorem filterMap_normalizeDomain_eq_nil {domains : List String}
    (h : ∀ s ∈ domains, SolidDomain s) : domains.filterMap normalizeDomain = [] ↔ domains = [] := by
  rw [List.filterMap_eq_nil_iff]
  constructor
  · intro hnone
    apply List.eq_nil_iff_forall_not_mem.mpr
    intro s hs
    have hsome := normalizeDomain_isSome.mpr (h s hs)
    rw [hnone s hs] at hsome
    cases hsome
  · rintro rfl
    simp

/-- Of a validated destination no list is emptied. -/
theorem normalizeDestination_eq_nil (h : ValidDestination parseUrl d) :
    ((normalizeDestination d).fromDomains = [] ↔ d.fromDomains = []) ∧
      ((normalizeDestination d).toDomains = [] ↔ d.toDomains = []) :=
  ⟨filterMap_normalizeDomain_eq_nil h.fromDomains, filterMap_normalizeDomain_eq_nil h.toDomains⟩

theorem destinationMatches_iff : destinationMatches d event = true ↔ d.catchAll = true ∨
    (d.eventTypes ≠ [] → ∃ eventType ∈ event.eventType, eventType ∈ d.eventTypes) ∧
      (d.fromDomains ≠ [] → ∃ domain ∈ event.fromDomain, domain ∈ d.fromDomains) ∧
      (d.toDomains ≠ [] → ∃ domain ∈ event.toDomains, domain ∈ d.toDomains) := by
  have hlist : ∀ {p : Prop} {xs : List String}, xs = [] ∨ p ↔ (xs ≠ [] → p) := by
    intro p xs
    rw [ne_eq, imp_iff_not_or, not_not]
  simp only [destinationMatches, Bool.or_eq_true, Bool.and_eq_true, List.isEmpty_iff, hlist,
    Option.any_eq_true, List.any_eq_true, List.contains_iff_mem, Option.mem_def, and_assoc]

theorem mem_filterMap_normalizeDomain {domains : List String} {domain : String} :
    domain ∈ domains.filterMap normalizeDomain ↔
      ∃ entry ∈ domains, normalizeDomain entry = some domain :=
  List.mem_filterMap

theorem destinationMatches_normalizeDestination (h : ValidDestination parseUrl d) :
    destinationMatches (normalizeDestination d) event = true ↔ Routed d event := by
  rcases normalizeDestination_eq_nil h with ⟨hfrom, hto⟩
  rw [destinationMatches_iff, ne_eq, ne_eq, ne_eq, hfrom, hto]
  simp only [normalizeDestination, mem_filterMap_normalizeDomain]
  constructor
  · rintro (hc | ⟨h1, h2, h3⟩)
    · exact .inl hc
    · exact .inr ⟨h1, h2, h3⟩
  · rintro (hc | ⟨h1, h2, h3⟩)
    · exact .inl hc
    · exact .inr ⟨h1, h2, h3⟩

def bareEvent : ResendEventForRouting := ⟨none, none, none, []⟩

theorem not_routed_bareEvent (h : ValidDestination parseUrl d) (hc : d.catchAll = false) :
    ¬ Routed d bareEvent := by
  rintro (hcatch | hs)
  · rw [hc] at hcatch
    cases hcatch
  · rcases h.criterion with hcatch | hlist | hlist | hlist
    · rw [hc] at hcatch
      cases hcatch
    · obtain ⟨domain, hm, -⟩ := hs.fromDomain hlist
      cases hm
    · obtain ⟨domain, hm, -⟩ := hs.toDomain hlist
      cases hm
    · obtain ⟨eventType, hm, -⟩ := hs.eventType hlist
      cases hm

/-- The matcher returns, in order and otherwise unchanged, exactly the destinations whose
configured constraints hold; no domain list is emptied, and only a catch-all matches every
event. -/
theorem routing_keeps_constraints {ds : List DestinationConfig}
    (hvalid : ∀ d ∈ ds, d.validate parseUrl = .ok ()) :
    (∀ event, (RouteMatcher.new ds).matchDestinations event =
      (ds.filter (Routed · event)).map normalizeDestination) ∧
    (∀ d ∈ ds, (normalizeDestination d).name = d.name ∧ (normalizeDestination d).url = d.url ∧
      (normalizeDestination d).eventTypes = d.eventTypes ∧
      (normalizeDestination d).catchAll = d.catchAll) ∧
    (∀ d ∈ ds, ((normalizeDestination d).fromDomains = [] ↔ d.fromDomains = []) ∧
      ((normalizeDestination d).toDomains = [] ↔ d.toDomains = [])) ∧
    ∀ d ∈ ds, d.catchAll = false →
      ∃ event, destinationMatches (normalizeDestination d) event = false := by
  have hvd : ∀ d ∈ ds, ValidDestination parseUrl d :=
    fun d hd => validate_destination_eq_ok.mp (hvalid d hd)
  refine ⟨fun event => ?_, fun d _ => ⟨rfl, rfl, rfl, rfl⟩,
    fun d hd => normalizeDestination_eq_nil (hvd d hd), fun d hd hc => ⟨bareEvent, ?_⟩⟩
  · rw [RouteMatcher.matchDestinations, RouteMatcher.new, List.filter_map]
    congr 1
    apply List.filter_congr
    intro d hd
    rw [Function.comp_apply, Bool.eq_iff_iff, decide_eq_true_iff]
    exact destinationMatches_normalizeDestination (hvd d hd)
  · rw [Bool.eq_false_iff, ne_eq, destinationMatches_normalizeDestination (hvd d hd)]
    exact not_routed_bareEvent (hvd d hd) hc

theorem routing_keeps_constraints_app :
    (RouteMatcher.new [⟨"app", "https://app.example.com/hook", [" @Example.COM. "], [],
      ["email.delivered"], false⟩, ⟨"audit", "https://audit.example.com/hook", [], [], [],
        true⟩]).matchDestinations ⟨none, some "email.opened", some "example.com", []⟩ =
      [⟨"audit", "https://audit.example.com/hook", [], [], [], true⟩] := by
  rw [(@routing_keeps_constraints (fun _ => .ok "https") _ (by decide)).1]
  decide

end ResendRouter.Routing
