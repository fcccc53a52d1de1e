import Switchboard.Crud.Service
import Switchboard.Plugins
import Switchboard.Proofs.Calls.Lawful

namespace Switchboard

namespace Directory

variable {α : Type} {d : Directory α} {name other : String} {a b : α}

theorem get?_cons (name : String) (a : α) (d : Directory α) (other : String) :
    get? ((name, a) :: d) other = if other = name then some a else d.get? other := by
  rw [get?, List.lookup_cons]
  by_cases h : other = name
  · simp [h]
  · simp [h, beq_false_of_ne h, get?]

theorem get?_insert (name : String) (a : α) (d : Directory α) (other : String) :
    (d.insert name a).get? other = if other = name then some a else d.get? other := by
  induction d with
  | nil => exact get?_cons name a [] other
  | cons e rest ih =>
    obtain ⟨n, c⟩ := e
    rw [insert]
    split
    next => exact get?_cons name a _ other
    next =>
      split
      next hname =>
        subst hname
        rw [get?_cons, get?_cons]
        split <;> rfl
      next hne =>
        rw [get?_cons, ih, get?_cons]
        by_cases hother : other = n
        · have hne' : other ≠ name := fun h => hne (h.symm.trans hother)
          rw [if_pos hother, if_neg hne', if_pos hother]
        · simp [hother]

theorem get?_of_insert (h : (d.insert name a).get? other = some b) :
    (other = name ∧ b = a) ∨ d.get? other = some b := by
  rw [get?_insert] at h
  split at h
  next hname => exact .inl ⟨hname, (Option.some.inj h).symm⟩
  next => exact .inr h

end Directory

theorem Registry.of_addMethod {r r' : Registry} {m : Method} (h : r.addMethod m = .ok r') :
    r.method? m.name = none ∧ r' = { r with methods := r.methods.insert m.name m } := by
  unfold addMethod at h
  split at h
  next => cases h
  next =>
    split at h
    next => cases h
    next hnew =>
      cases h
      exact ⟨Option.not_isSome_iff_eq_none.mp hnew, rfl⟩

theorem Registry.of_addEventSource {r r' : Registry} {name : String} {entry : SourceEntry}
    (h : r.addEventSource name entry = .ok r') :
    r' = { r with eventSources := r.eventSources.insert name entry } := by
  unfold addEventSource at h
  split at h
  next => cases h
  next =>
    split at h
    next => cases h
    next =>
      cases h
      rfl

/-- What is added is found, and so is what was there before. -/
theorem Registry.method?_addMethod {r r' : Registry} {m : Method} (h : r.addMethod m = .ok r') :
    r'.method? m.name = some m ∧
      ∀ name found, r.method? name = some found → r'.method? name = some found := by
  obtain ⟨hnew, rfl⟩ := of_addMethod h
  unfold method? at *
  refine ⟨by rw [Directory.get?_insert, if_pos rfl], fun name found hfound => ?_⟩
  have hne : name ≠ m.name := by
    rintro rfl
    cases hnew.symm.trans hfound
  rw [Directory.get?_insert, if_neg hne, hfound]

theorem Builder.method?_addMethods {b b' : Builder} {ms : List Method}
    (h : b.addMethods ms = (b', none)) : (∀ m ∈ ms, b'.registry.method? m.name = some m) ∧
      ∀ name found, b.registry.method? name = some found →
        b'.registry.method? name = some found := by
  induction ms generalizing b with
  | nil =>
    cases h
    exact ⟨fun _ hm => absurd hm List.not_mem_nil, fun _ _ hfound => hfound⟩
  | cons m rest ih =>
    unfold addMethods addMethod at h
    cases hadded : b.registry.addMethod m with
    | error e =>
      rw [hadded] at h
      cases h
    | ok r =>
      rw [hadded] at h
      obtain ⟨hnew, hold⟩ := Registry.method?_addMethod hadded
      obtain ⟨hrest, hkept⟩ := ih h
      refine ⟨fun q hq => ?_, fun name found hfound => hkept name found (hold name found hfound)⟩
      rcases List.mem_cons.mp hq with rfl | hq
      · exact hkept _ _ hnew
      · exact hrest q hq

theorem Builder.method?_addService {b b' : Builder} {space : String} {ms : List Method}
    (h : b.addService space ms = (b', none)) {m : Method} (hm : m ∈ ms) :
    b'.registry.method? s!"{space}.{m.name}" = some { m with name := s!"{space}.{m.name}" } := by
  unfold addService at h
  split at h
  next =>
    have hfound := (method?_addMethods h).1 _ (List.mem_map_of_mem hm)
    exact hfound
  next => cases h

def Method.Lawful (m : Method) : Prop :=
  ∀ (context : CallContext) args, (m.body context args).Lawful [context.token]

namespace Registry.Lawful

variable {r : Registry} (h : r.Lawful)
include h

theorem addMethod {r' : Registry} {m : Method} (hm : m.Lawful) (hadded : r.addMethod m = .ok r') :
    r'.Lawful := by
  obtain ⟨-, rfl⟩ := Registry.of_addMethod hadded
  refine ⟨fun name found hfound => ?_, h.hooks⟩
  rcases Directory.get?_of_insert hfound with ⟨-, rfl⟩ | hold
  · exact hm
  · exact h.methods name found hold

theorem addEventSource {r' : Registry} {name : String} {entry : SourceEntry}
    (hadded : r.addEventSource name entry = .ok r') : r'.Lawful := by
  cases Registry.of_addEventSource hadded
  exact ⟨h.methods, h.hooks⟩

theorem addHook {hook : Hook} (hhook : ∀ payload, (hook.run payload).Lawful []) (event : String) :
    (r.addHook event hook).Lawful := by
  refine ⟨h.methods, fun event' found hmem => ?_⟩
  obtain ⟨hooks, hget, hfound⟩ : ∃ hooks, Directory.get?
      (r.hooks.insert event (r.handlers event ++ [hook])) event' = some hooks ∧ found ∈ hooks := by
    have hin : found ∈ (Directory.get?
      (r.hooks.insert event (r.handlers event ++ [hook])) event').getD [] := hmem
    cases hget : Directory.get? (r.hooks.insert event (r.handlers event ++ [hook])) event' with
    | none =>
      rw [hget] at hin
      cases hin
    | some hooks =>
      rw [hget] at hin
      exact ⟨hooks, rfl, hin⟩
  rcases Directory.get?_of_insert hget with ⟨-, rfl⟩ | hold
  · rcases List.mem_append.mp hfound with hold | hnew
    · exact h.hooks event found hold
    · exact List.mem_singleton.mp hnew ▸ hhook
  · refine h.hooks event' found ?_
    unfold handlers
    rw [hold]
    exact hfound

end Registry.Lawful

namespace Builder

variable {b : Builder} (h : b.registry.Lawful)
include h

theorem lawful_addMethod {m : Method} (hm : m.Lawful) : (b.addMethod m).1.registry.Lawful := by
  unfold addMethod
  split
  next hadded => exact h.addMethod hm hadded
  next => exact h

theorem lawful_addMethods {ms : List Method} (hms : ∀ m ∈ ms, m.Lawful) :
    (b.addMethods ms).1.registry.Lawful := by
  induction ms generalizing b with
  | nil => exact h
  | cons m rest ih =>
    have hadded := lawful_addMethod h (hms m List.mem_cons_self)
    unfold addMethods
    split
    next heq =>
      rw [heq] at hadded
      exact ih hadded fun m hm => hms m (List.mem_cons_of_mem _ hm)
    next heq =>
      rw [heq] at hadded
      exact hadded

theorem lawful_addService {ms : List Method} (hms : ∀ m ∈ ms, m.Lawful) (space : String) :
    (b.addService space ms).1.registry.Lawful := by
  unfold addService
  split
  next =>
    refine lawful_addMethods h fun m hm => ?_
    obtain ⟨m', hm', rfl⟩ := List.mem_map.mp hm
    exact hms m' hm'
  next => exact h

theorem lawful_addEventSource (name : String) (entry : SourceEntry) :
    (b.addEventSource name entry).1.registry.Lawful := by
  unfold addEventSource
  split
  next hadded => exact h.addEventSource hadded
  next => exact h

end Builder

namespace Core

variable {own : List Token}

theorem lawful_queryJobs [PatternReader] (args : List Json) :
    (queryJobs args).Lawful own .idle := by
  unfold queryJobs
  dsimp only
  split
  next => exact .done _
  next => exact .plain trivial fun _ => .done _

theorem lawful_methods [PatternReader] : ∀ m ∈ methods, m.Lawful := by
  intro m hm context args
  simp only [methods, List.mem_cons, List.not_mem_nil, or_false] at hm
  rcases hm with rfl | rfl | rfl | rfl | rfl
  · exact ⟨.done (), .done _⟩
  · exact ⟨.done (), .plain trivial fun _ => .done _⟩
  · exact ⟨.done (), (lawful_queryJobs args).bind_of_forall fun _ _ => .done _⟩
  · exact ⟨.done (), .plain trivial fun _ => .done _⟩
  · exact ⟨.done (), .plain trivial fun _ => .done _⟩

end Core

/-- The plugins may be added to whatever goes by the rules. -/
theorem Builder.lawful_addPlugins [PatternReader] {b : Builder} (h : b.registry.Lawful) :
    b.addPlugins.1.registry.Lawful := by
  have hadded := lawful_addService h Core.lawful_methods "core"
  unfold addPlugins
  split
  next heq =>
    rw [heq] at hadded
    exact lawful_addEventSource hadded _ _
  next heq =>
    rw [heq] at hadded
    exact hadded

namespace CrudService

structure Lawful (s : CrudService) : Prop where
  entries : ∀ context : CallContext, (s.entries context).Lawful [context.token] .idle
  create : ∀ (context : CallContext) data, (s.create context data).Lawful [context.token] .idle
  update : ∀ (context : CallContext) id data,
    (s.update context id data).Lawful [context.token] .idle
  delete : ∀ (context : CallContext) id, (s.delete context id).Lawful [context.token] .idle

variable {s : CrudService} (h : s.Lawful)
include h

theorem lawful_query [PatternReader] (context : CallContext) (filters : List Json)
    (options : QueryOptions) : (s.query context filters options).Lawful [context.token] .idle := by
  refine (h.entries context).bind_of_forall fun found _ => ?_
  cases found with
  | error e => exact .done _
  | ok records => exact .done _

theorem lawful_methods [PatternReader] : ∀ m ∈ s.methods, m.Lawful := by
  intro m hm context args
  simp only [methods, List.mem_cons, List.not_mem_nil, or_false] at hm
  rcases hm with rfl | rfl | rfl | rfl | rfl
  · refine ⟨.done (), ?_⟩
    show (s.runQuery context args).Lawful [context.token] .idle
    unfold runQuery
    split
    next => exact .done _
    next options _ =>
      exact (lawful_query h context _ options).bind_of_forall fun _ _ => .done _
  · refine ⟨.done (), ?_⟩
    show (s.runGetInstance context args).Lawful [context.token] .idle
    unfold runGetInstance
    split
    next => exact .done _
    next options _ =>
      exact (lawful_query h context _ { options with get := true }).bind_of_forall
        fun _ _ => .done _
  · exact ⟨.done (), h.create context _⟩
  · exact ⟨.done (), h.update context _ _⟩
  · exact ⟨.done (), h.delete context _⟩

end CrudService

/-- A service over a shelf does nothing that concerns tokens. -/
theorem ShelfOptions.lawful_service (o : ShelfOptions) (shelf : Nat) : (o.service shelf).Lawful where
  entries context := by
    unfold service
    dsimp only
    split
    next => exact .done _
    next => exact .plain trivial fun _ => .done _
  create context data := by
    unfold service
    dsimp only
    split
    next =>
      exact .plain trivial fun _ => .plain trivial fun _ => .plain trivial fun _ => .done _
    next => exact .plain trivial fun _ => .plain trivial fun _ => .done _
  update context id data := by
    have hread : (Routine.ask (.readShelf shelf)).Lawful [context.token] .idle := .ask trivial
    refine hread.bind_of_forall fun (found : Shelf) _ => ?_
    cases found.update? o.primaryKey id data with
    | none => exact .done _
    | some changed => exact .plain trivial fun _ => .done _
  delete context id := by
    have hread : (Routine.ask (.readShelf shelf)).Lawful [context.token] .idle := .ask trivial
    refine hread.bind_of_forall fun (found : Shelf) _ => ?_
    cases found.delete? o.primaryKey id with
    | none => exact .done _
    | some left => exact .plain trivial fun _ => .done _

theorem Builder.lawful_addShelf [PatternReader] {b : Builder} (h : b.registry.Lawful)
    (o : ShelfOptions) (shelf : Nat) :
    (b.addService o.space (o.service shelf).methods).1.registry.Lawful :=
  lawful_addService h (CrudService.lawful_methods (o.lawful_service shelf)) o.space

end Switchboard
