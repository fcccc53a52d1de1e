import Switchboard.Proofs.Calls.Registration

namespace Switchboard

/-- A name made of segments with dots between them. No segment is empty or has a blank. -/
def ValidName (name : String) : Prop :=
  ∃ segments : List (List Char), segments ≠ [] ∧ name.toList = ['.'].intercalate segments ∧
    ∀ segment ∈ segments, segment ≠ [] ∧ ∀ c ∈ segment, c ≠ '.' ∧ Unicode.isBlank c = false

theorem nameSegments_eq_splitOn (name : List Char) : nameSegments name = name.splitOn '.' := by
  induction name with
  | nil => rfl
  | cons c rest ih =>
    obtain ⟨segment, more, hsplit⟩ := List.exists_cons_of_ne_nil (List.splitOn_ne_nil '.' rest)
    rw [nameSegments, ih, List.splitOn_cons_eq_if_modifyHead, hsplit]
    by_cases hc : c = '.' <;> simp [hc]

theorem dot_notMem_of_mem_nameSegments {name segment : List Char}
    (h : segment ∈ nameSegments name) : '.' ∉ segment := by
  induction name generalizing segment with
  | nil =>
    cases List.mem_singleton.mp h
    exact List.not_mem_nil
  | cons c rest ih =>
    rw [nameSegments] at h
    split at h
    next hnone =>
      rw [nameSegments_eq_splitOn] at hnone
      exact absurd hnone (List.splitOn_ne_nil '.' rest)
    next first more hfirst =>
      rw [hfirst] at ih
      split at h
      next =>
        rcases List.mem_cons.mp h with rfl | h
        · exact List.not_mem_nil
        · exact ih h
      next hc =>
        rcases List.mem_cons.mp h with rfl | h
        · exact fun hdot => (List.mem_cons.mp hdot).elim (hc ·.symm) (ih List.mem_cons_self)
        · exact ih (List.mem_cons_of_mem _ h)

theorem isValidName_iff {name : String} : isValidName name = true ↔ ValidName name := by
  have hvalid : isValidName name = true ↔ ∀ segment ∈ nameSegments name.toList,
      segment ≠ [] ∧ ∀ c ∈ segment, Unicode.isBlank c = false := by
    simp [isValidName]
  rw [hvalid]
  constructor
  · intro h
    refine ⟨nameSegments name.toList, ?_, ?_, fun segment hmem => ⟨(h segment hmem).1, ?_⟩⟩
    · rw [nameSegments_eq_splitOn]
      exact List.splitOn_ne_nil '.' _
    · rw [nameSegments_eq_splitOn, List.intercalate_splitOn]
    · rintro c hc
      refine ⟨?_, (h segment hmem).2 c hc⟩
      rintro rfl
      exact dot_notMem_of_mem_nameSegments hmem hc
  · rintro ⟨segments, hne, hname, h⟩
    have hsegments : nameSegments name.toList = segments := by
      rw [hname, nameSegments_eq_splitOn]
      refine List.splitOn_intercalate '.' (fun segment hmem hdot => ?_) hne
      exact ((h segment hmem).2 '.' hdot).1 rfl
    rw [hsegments]
    exact fun segment hmem => ⟨(h segment hmem).1, fun c hc => ((h segment hmem).2 c hc).2⟩

namespace Directory

variable {α : Type} {d d' d'' : Directory α} {new more : List (String × α)} {name : String} {a : α}

/-- The entries of `d'` are those of `d` and the new ones, each of them under a valid name that was
free. -/
structure Gains (d d' : Directory α) (new : List (String × α)) : Prop where
  entries : d'.Perm (new ++ d)
  valid : ∀ e ∈ new, ValidName e.1
  distinct : (new.map Prod.fst).Nodup
  free : ∀ e ∈ new, d.get? e.1 = none
  bound : ∀ e ∈ new, d'.get? e.1 = some e.2
  others : ∀ other, other ∉ new.map Prod.fst → d'.get? other = d.get? other

theorem perm_insert (h : d.get? name = none) : (d.insert name a).Perm ((name, a) :: d) := by
  induction d with
  | nil => exact .refl _
  | cons e rest ih =>
    obtain ⟨n, c⟩ := e
    rw [get?_cons] at h
    split at h
    next => cases h
    next hne =>
      rw [insert]
      split
      next => exact .refl _
      next =>
        exact ((ih h).cons (n, c)).trans (.swap _ _ _)

namespace Gains

theorem nil : d.Gains d [] where
  entries := .refl _
  valid _ h := absurd h List.not_mem_nil
  distinct := .nil
  free _ h := absurd h List.not_mem_nil
  bound _ h := absurd h List.not_mem_nil
  others _ _ := rfl

theorem insert (hvalid : ValidName name) (hfree : d.get? name = none) :
    d.Gains (d.insert name a) [(name, a)] where
  entries := perm_insert hfree
  valid _ h := List.mem_singleton.mp h ▸ hvalid
  distinct := by simp
  free _ h := List.mem_singleton.mp h ▸ hfree
  bound _ h := by
    cases List.mem_singleton.mp h
    rw [get?_insert, if_pos rfl]
  others other hother := by
    rw [get?_insert, if_neg (by simpa using hother)]

theorem kept (h : d.Gains d' new) {found : α} (hfound : d.get? name = some found) :
    d'.get? name = some found := by
  rw [h.others, hfound]
  intro hmem
  obtain ⟨e, he, rfl⟩ := List.mem_map.mp hmem
  cases (h.free e he).symm.trans hfound

theorem free_of_free (h : d.Gains d' new) (hfree : d'.get? name = none) : d.get? name = none := by
  cases hfound : d.get? name with
  | none => rfl
  | some found => cases (h.kept hfound).symm.trans hfree

theorem isSome_get?_iff (h : d.Gains d' new) :
    (d'.get? name).isSome ↔ (d.get? name).isSome ∨ name ∈ new.map Prod.fst := by
  by_cases hmem : name ∈ new.map Prod.fst
  · obtain ⟨e, he, rfl⟩ := List.mem_map.mp hmem
    simp [h.bound e he, hmem]
  · simp [h.others name hmem, hmem]

theorem trans (h : d.Gains d' new) (h' : d'.Gains d'' more) : d.Gains d'' (new ++ more) where
  entries := by
    have hswapped : (more ++ (new ++ d)).Perm (new ++ (more ++ d)) := by
      rw [← List.append_assoc, ← List.append_assoc]
      exact List.perm_append_comm.append_right d
    rw [List.append_assoc]
    exact (h'.entries.trans (h.entries.append_left more)).trans hswapped
  valid e he := (List.mem_append.mp he).elim (h.valid e) (h'.valid e)
  distinct := by
    rw [List.map_append, List.nodup_append]
    refine ⟨h.distinct, h'.distinct, ?_⟩
    rintro _ hold _ hnew rfl
    obtain ⟨e, he, heq⟩ := List.mem_map.mp hold
    obtain ⟨f, hf, rfl⟩ := List.mem_map.mp hnew
    cases (h'.free f hf).symm.trans (heq ▸ h.bound e he)
  free e he := (List.mem_append.mp he).elim (h.free e) fun hmem => h.free_of_free (h'.free e hmem)
  bound e he := (List.mem_append.mp he).elim (fun hmem => h'.kept (h.bound e hmem)) (h'.bound e)
  others other hother := by
    rw [List.map_append, List.mem_append, not_or] at hother
    rw [h'.others other hother.2, h.others other hother.1]

end Gains

end Directory

def Method.within (space : String) (m : Method) : Method := { m with name := s!"{space}.{m.name}" }

inductive Registrable where
  | method (m : Method)
  | service (space : String) (methods : List Method)
  | crud (s : CrudService)
  | eventSource (name : String) (entry : SourceEntry)

namespace Registrable

def methods [PatternReader] : Registrable → List Method
  | method m => [m]
  | service space methods => methods.map (Method.within space)
  | crud s => s.methods.map (Method.within s.space)
  | eventSource _ _ => []

def eventSources : Registrable → List (String × SourceEntry)
  | eventSource name entry => [(name, entry)]
  | _ => []

def space? : Registrable → Option String
  | service space _ => some space
  | crud s => some s.space
  | _ => none

def Spaced (c : Registrable) : Prop := ∀ space, c.space? = some space → ValidName space

theorem spaced_of_none {c : Registrable} (h : c.space? = none) : c.Spaced := by
  intro space hspace
  rw [h] at hspace
  cases hspace

end Registrable

def Method.entry (m : Method) : String × Method := (m.name, m)

namespace Registry

variable {r r' : Registry} {m : Method} {name : String} {entry : SourceEntry} {e : RegistryError}

theorem of_check {taken : Bool} {duplicate : RegistryError} {result : Except RegistryError Registry}
    (h : (if !isValidName name then .error (.invalidName name)
      else if taken then .error duplicate else .ok r) = result) :
    (¬ ValidName name ∧ result = .error (.invalidName name)) ∨
      ValidName name ∧ taken = true ∧ result = .error duplicate ∨
      ValidName name ∧ taken = false ∧ result = .ok r := by
  rw [← isValidName_iff]
  cases hvalid : isValidName name <;> cases taken <;> simp_all

theorem validName_of_addMethod (h : r.addMethod m = .ok r') : ValidName m.name := by
  rcases of_check h with ⟨-, hr⟩ | ⟨-, -, hr⟩ | ⟨hvalid, -, -⟩
  · cases hr
  · cases hr
  · exact hvalid

theorem of_addMethod_error (h : r.addMethod m = .error e) :
    (¬ ValidName m.name ∧ e = .invalidName m.name) ∨
      ValidName m.name ∧ (r.method? m.name).isSome ∧ e = .duplicateMethod m.name := by
  rcases of_check h with ⟨hinvalid, he⟩ | ⟨hvalid, htaken, he⟩ | ⟨-, -, he⟩
  · cases he
    exact .inl ⟨hinvalid, rfl⟩
  · cases he
    exact .inr ⟨hvalid, htaken, rfl⟩
  · cases he

theorem gains_addEventSource (h : r.addEventSource name entry = .ok r') :
    r.eventSources.Gains r'.eventSources [(name, entry)] := by
  cases of_addEventSource h
  rcases of_check h with ⟨-, hr⟩ | ⟨-, -, hr⟩ | ⟨hvalid, hfree, -⟩
  · cases hr
  · cases hr
  · exact .insert hvalid (Option.not_isSome_iff_eq_none.mp (Bool.eq_false_iff.mp hfree))

theorem of_addEventSource_error (h : r.addEventSource name entry = .error e) :
    (¬ ValidName name ∧ e = .invalidName name) ∨
      ValidName name ∧ (r.eventSources.get? name).isSome ∧ e = .duplicateEventSource name := by
  rcases of_check h with ⟨hinvalid, he⟩ | ⟨hvalid, htaken, he⟩ | ⟨-, -, he⟩
  · cases he
    exact .inl ⟨hinvalid, rfl⟩
  · cases he
    exact .inr ⟨hvalid, htaken, rfl⟩
  · cases he

end Registry

namespace Builder

variable {b b' : Builder} {c : Registrable} {m : Method} {ms done : List Method}
  {space name : String} {entry : SourceEntry} {e : RegistryError}

/-- The builder has these methods and event sources besides what it had before. -/
structure Gains (b b' : Builder) (ms : List Method) (sources : List (String × SourceEntry)) :
    Prop where
  methods : b.registry.methods.Gains b'.registry.methods (ms.map Method.entry)
  eventSources : b.registry.eventSources.Gains b'.registry.eventSources sources
  hooks : b'.registry.hooks = b.registry.hooks
  settings : b'.settings = b.settings

theorem Gains.nil : b.Gains b [] [] := ⟨.nil, .nil, rfl, rfl⟩

theorem Gains.trans {b'' : Builder} {ms' : List Method}
    {sources sources' : List (String × SourceEntry)} (h : b.Gains b' ms sources)
    (h' : b'.Gains b'' ms' sources') : b.Gains b'' (ms ++ ms') (sources ++ sources') where
  methods := by
    rw [List.map_append]
    exact h.methods.trans h'.methods
  eventSources := h.eventSources.trans h'.eventSources
  hooks := h'.hooks.trans h.hooks
  settings := h'.settings.trans h.settings

theorem gains_addMethod (h : b.addMethod m = (b', none)) : b.Gains b' [m] [] := by
  unfold addMethod at h
  cases hadded : b.registry.addMethod m with
  | error e =>
    rw [hadded] at h
    cases h
  | ok r =>
    rw [hadded] at h
    cases h
    have hvalid := Registry.validName_of_addMethod hadded
    obtain ⟨hfree, rfl⟩ := Registry.of_addMethod hadded
    exact ⟨.insert hvalid hfree, .nil, rfl, rfl⟩

theorem gains_addMethods (h : b.addMethods ms = (b', none)) : b.Gains b' ms [] := by
  induction ms generalizing b with
  | nil =>
    cases h
    exact .nil
  | cons m rest ih =>
    unfold addMethods at h
    split at h
    next hadded => exact (gains_addMethod hadded).trans (ih h)
    next => cases h

theorem addMethods_of_error (h : b.addMethods ms = (b', some e)) :
    ∃ done m rest, ms = done ++ m :: rest ∧ b.addMethods done = (b', none) ∧
      b'.registry.addMethod m = .error e := by
  induction ms generalizing b with
  | nil => cases h
  | cons m rest ih =>
    unfold addMethods at h
    split at h
    next b₁ hadded =>
      obtain ⟨done, m', rest', rfl, hdone, hrefused⟩ := ih h
      refine ⟨m :: done, m', rest', rfl, ?_, hrefused⟩
      rw [addMethods, hadded]
      exact hdone
    next b₁ e₁ hadded =>
      cases h
      unfold addMethod at hadded
      cases hrefused : b.registry.addMethod m with
      | ok r =>
        rw [hrefused] at hadded
        cases hadded
      | error e₂ =>
        rw [hrefused] at hadded
        cases hadded
        exact ⟨[], m, rest, rfl, rfl, hrefused⟩

theorem gains_addService (h : b.addService space ms = (b', none)) :
    ValidName space ∧ b.Gains b' (ms.map (Method.within space)) [] := by
  unfold addService at h
  split at h
  next hspace => exact ⟨isValidName_iff.mp hspace, gains_addMethods h⟩
  next => cases h

theorem gains_addEventSource (h : b.addEventSource name entry = (b', none)) :
    b.Gains b' [] [(name, entry)] := by
  unfold addEventSource at h
  cases hadded : b.registry.addEventSource name entry with
  | error e =>
    rw [hadded] at h
    cases h
  | ok r =>
    rw [hadded] at h
    cases h
    have hgains := Registry.gains_addEventSource hadded
    cases Registry.of_addEventSource hadded
    exact ⟨.nil, hgains, rfl, rfl⟩

variable [PatternReader]

def register (b : Builder) : Registrable → Registration
  | .method m => b.addMethod m
  | .service space methods => b.addService space methods
  | .crud s => b.addService s.space s.methods
  | .eventSource name entry => b.addEventSource name entry

theorem gains_register (h : b.register c = (b', none)) :
    c.Spaced ∧ b.Gains b' c.methods c.eventSources := by
  cases c with
  | method m => exact ⟨Registrable.spaced_of_none rfl, gains_addMethod h⟩
  | service space ms =>
    obtain ⟨hspace, hgains⟩ := gains_addService h
    exact ⟨fun _ heq => Option.some.inj heq ▸ hspace, hgains⟩
  | crud s =>
    obtain ⟨hspace, hgains⟩ := gains_addService h
    exact ⟨fun _ heq => Option.some.inj heq ▸ hspace, hgains⟩
  | eventSource name entry => exact ⟨Registrable.spaced_of_none rfl, gains_addEventSource h⟩

/-- Why a registration is refused. The methods in `done` come before the one it is refused for. -/
inductive Refused (b : Builder) : Registrable → List Method → RegistryError → Prop where
  | space {c : Registrable} {space : String} (hspace : c.space? = some space)
      (hinvalid : ¬ ValidName space) : Refused b c [] (.invalidName space)
  | invalidMethod {c : Registrable} {done rest : List Method} {m : Method} (hspaced : c.Spaced)
      (hmethods : c.methods = done ++ m :: rest) (hinvalid : ¬ ValidName m.name) :
      Refused b c done (.invalidName m.name)
  | takenMethod {c : Registrable} {done rest : List Method} {m : Method} (hspaced : c.Spaced)
      (hmethods : c.methods = done ++ m :: rest) (hvalid : ValidName m.name)
      (htaken : (b.registry.method? m.name).isSome ∨ m.name ∈ done.map Method.name) :
      Refused b c done (.duplicateMethod m.name)
  | invalidSource {name : String} {entry : SourceEntry} (hinvalid : ¬ ValidName name) :
      Refused b (.eventSource name entry) [] (.invalidName name)
  | takenSource {name : String} {entry : SourceEntry} (hvalid : ValidName name)
      (htaken : (b.registry.eventSources.get? name).isSome) :
      Refused b (.eventSource name entry) [] (.duplicateEventSource name)

/-- Nothing comes before what is registered alone, and nothing before a common name. -/
theorem Refused.done_eq_nil (h : b.Refused c done e) (hc : c.space? = none ∨ ¬ c.Spaced) :
    done = [] := by
  have hmethods : ∀ {m rest}, c.Spaced → c.methods = done ++ m :: rest → done = [] := by
    intro m rest hspaced heq
    have hnone := hc.resolve_right (· hspaced)
    cases c with
    | method m' =>
      have hlength := congrArg List.length heq
      simp only [Registrable.methods, List.length_append, List.length_cons, List.length_nil]
        at hlength
      exact List.eq_nil_of_length_eq_zero (by omega)
    | service | crud => cases hnone
    | eventSource => simp [Registrable.methods] at heq
  cases h with
  | space | invalidSource | takenSource => rfl
  | invalidMethod hspaced heq => exact hmethods hspaced heq
  | takenMethod hspaced heq => exact hmethods hspaced heq

theorem refused_addMethods (hspaced : c.Spaced) (h : b.addMethods c.methods = (b', some e)) :
    ∃ done, b.Refused c done e ∧ b.addMethods done = (b', none) := by
  obtain ⟨done, m, rest, hmethods, hdone, hrefused⟩ := addMethods_of_error h
  rcases Registry.of_addMethod_error hrefused with ⟨hinvalid, rfl⟩ | ⟨hvalid, htaken, rfl⟩
  · exact ⟨done, .invalidMethod hspaced hmethods hinvalid, hdone⟩
  · refine ⟨done, .takenMethod hspaced hmethods hvalid ?_, hdone⟩
    have hnames : (done.map Method.entry).map Prod.fst = done.map Method.name := by
      rw [List.map_map]
      rfl
    exact hnames ▸ (gains_addMethods hdone).methods.isSome_get?_iff.mp htaken

theorem refused_addService (hspace : c.space? = some space)
    (hmethods : c.methods = ms.map (Method.within space))
    (h : b.addService space ms = (b', some e)) :
    ∃ done, b.Refused c done e ∧ b.addMethods done = (b', none) := by
  unfold addService at h
  split at h
  next hvalid =>
    have hspaced : c.Spaced := fun other hother =>
      Option.some.inj (hspace.symm.trans hother) ▸ isValidName_iff.mp hvalid
    exact refused_addMethods hspaced (hmethods ▸ h)
  next hinvalid =>
    cases h
    exact ⟨[], .space hspace fun hvalid => hinvalid (isValidName_iff.mpr hvalid), rfl⟩

theorem refused_addEventSource (h : b.addEventSource name entry = (b', some e)) :
    b.Refused (.eventSource name entry) [] e ∧ b' = b := by
  unfold addEventSource at h
  cases hadded : b.registry.addEventSource name entry with
  | ok r =>
    rw [hadded] at h
    cases h
  | error e' =>
    rw [hadded] at h
    cases h
    rcases Registry.of_addEventSource_error hadded with ⟨hinvalid, rfl⟩ | ⟨hvalid, htaken, rfl⟩
    · exact ⟨.invalidSource hinvalid, rfl⟩
    · exact ⟨.takenSource hvalid htaken, rfl⟩

theorem refused_register (h : b.register c = (b', some e)) :
    ∃ done, b.Refused c done e ∧ b.addMethods done = (b', none) := by
  cases c with
  | method m =>
    refine refused_addMethods (Registrable.spaced_of_none rfl) ?_
    have hadded : b.addMethod m = (b', some e) := h
    simp only [Registrable.methods, addMethods, hadded]
  | service space ms => exact refused_addService rfl rfl h
  | crud s => exact refused_addService rfl rfl h
  | eventSource name entry =>
    obtain ⟨hrefused, rfl⟩ := refused_addEventSource h
    exact ⟨[], hrefused, rfl⟩

theorem exists_gains_register (b : Builder) (c : Registrable) :
    ∃ ms sources, b.Gains (b.register c).1 ms sources := by
  cases hresult : (b.register c).2 with
  | none => exact ⟨_, _, (gains_register (Prod.ext rfl hresult)).2⟩
  | some e =>
    obtain ⟨done, -, hdone⟩ := refused_register (Prod.ext rfl hresult)
    exact ⟨done, [], gains_addMethods hdone⟩

/-- What a registration does to the entries there are. -/
structure RegistersInOrder (b : Builder) (c : Registrable) : Prop where
  added : (b.register c).2 = none →
    c.Spaced ∧ b.Gains (b.register c).1 c.methods c.eventSources
  /-- If it fails the builder is as after the registration of the methods before the one that it is
  refused for. -/
  refused : ∀ e, (b.register c).2 = some e → ∃ done, b.Refused c done e ∧
    b.addMethods done = ((b.register c).1, none) ∧ b.Gains (b.register c).1 done []
  /-- So nothing has changed if what is refused is a single method, an event source or the common
  name of methods. -/
  unchanged : ∀ e, (b.register c).2 = some e → c.space? = none ∨ ¬ c.Spaced → (b.register c).1 = b
  kept : (∀ name m, b.registry.method? name = some m →
      (b.register c).1.registry.method? name = some m) ∧
    ∀ name entry, b.registry.eventSources.get? name = some entry →
      (b.register c).1.registry.eventSources.get? name = some entry

end Builder

theorem registers_in_order [PatternReader] (b : Builder) (c : Registrable) :
    b.RegistersInOrder c where
  added h := Builder.gains_register (Prod.ext rfl h)
  refused e h := by
    obtain ⟨done, hrefused, hdone⟩ := Builder.refused_register (Prod.ext rfl h)
    exact ⟨done, hrefused, hdone, Builder.gains_addMethods hdone⟩
  unchanged e h hc := by
    obtain ⟨done, hrefused, hdone⟩ := Builder.refused_register (Prod.ext rfl h)
    cases hrefused.done_eq_nil hc
    exact (congrArg Prod.fst hdone).symm
  kept := by
    obtain ⟨ms, sources, hgains⟩ := b.exists_gains_register c
    exact ⟨fun _ _ => hgains.methods.kept, fun _ _ => hgains.eventSources.kept⟩

-- no filter is read, and any engine would do
attribute [local instance] PatternReader.plain

/-- A service two of whose methods have one name. -/
def twins : Registrable := .service "net" [Core.ping, Core.ping]

/-- The second one is refused, and the first one stays. -/
theorem refused_service_leaves_method :
    (({} : Builder).register twins).2 = some (.duplicateMethod "net.ping") ∧
      ({} : Builder).registry.method? "net.ping" = none ∧
      ((({} : Builder).register twins).1.registry.method? "net.ping").isSome := by
  decide +kernel

end Switchboard
