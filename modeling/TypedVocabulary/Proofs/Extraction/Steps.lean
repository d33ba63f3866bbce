import TypedVocabulary.Proofs.Extraction
import TypedVocabulary.Proofs.Graph.Reordering

/-!
# Steps of extraction in any order

Extraction takes its steps in one order, each once.  Taken in another order, or more than once, they come
to the same: a step that is taken too early leaves something out, and nothing wrong in.

`Progress` says what is there of the graph after some steps, a flag for each kind of thing, and `Reads` that
a graph holds just that.  A step does to the graph what it does to the flags (`Reads.step`), so a run does
(`Reads.run`), and a run fills in everything as soon as the steps that need others come after them
(`Progress.afterAll_eq_bare`).  The main statement is `Extraction.steps_confluent`.
-/

namespace TypedVocabulary.Extraction

/-- the steps that fill in a graph, all but the collection of comments -/
inductive Step where
  | classes
  | properties
  | subclassing
  | domainsAndRanges
  | attaching
deriving DecidableEq, Repr

def Step.apply (source : Source) (d : Dialect) : Step → Graph → Graph
  | .classes => collectClasses source d
  | .properties => collectProperties source d
  | .subclassing => resolveSubclassing source d
  | .domainsAndRanges => resolveDomainsAndRanges source d
  | .attaching => Graph.attachProperties

/-- takes steps one after the other -/
def run (source : Source) (d : Dialect) (steps : List Step) (g : Graph) : Graph :=
  steps.foldl (fun g step => step.apply source d g) g

/-! ## what is there -/

/-- what a graph has been given: its terms, their edges, the properties of its classes, the comments -/
@[ext] structure Progress where
  classes : Bool
  properties : Bool
  parents : Bool
  domains : Bool
  attached : Bool
  comments : Bool
  classes_of_parents : parents = true → classes = true
  properties_of_domains : domains = true → properties = true
  domains_of_attached : attached = true → domains = true
  classes_of_attached : attached = true → classes = true
  terms_of_comments : comments = true → classes = true ∧ properties = true

namespace Progress

def nothing : Progress := by
  refine ⟨false, false, false, false, false, false, ?_, ?_, ?_, ?_, ?_⟩ <;> exact nofun

/-- everything but the comments -/
def bare : Progress := by
  refine ⟨true, true, true, true, true, false, ?_, ?_, ?_, ?_, ?_⟩ <;> simp

def full : Progress := by
  refine ⟨true, true, true, true, true, true, ?_, ?_, ?_, ?_, ?_⟩ <;> simp

/-- what is there after a further step -/
def after (f : Progress) : Step → Progress
  | .classes =>
    { f with
      classes := true
      classes_of_parents := fun _ => rfl
      classes_of_attached := fun _ => rfl
      terms_of_comments := fun h => ⟨rfl, (f.terms_of_comments h).2⟩ }
  | .properties =>
    { f with
      properties := true
      properties_of_domains := fun _ => rfl
      terms_of_comments := fun h => ⟨(f.terms_of_comments h).1, rfl⟩ }
  | .subclassing => { f with parents := f.classes, classes_of_parents := id }
  | .domainsAndRanges =>
    { f with
      domains := f.properties
      properties_of_domains := id
      domains_of_attached := fun h => f.properties_of_domains (f.domains_of_attached h) }
  | .attaching =>
    { f with
      attached := f.classes && f.domains
      domains_of_attached := fun h => (Bool.and_eq_true_iff.mp h).2
      classes_of_attached := fun h => (Bool.and_eq_true_iff.mp h).1 }

def afterAll (f : Progress) (steps : List Step) : Progress := steps.foldl after f

end Progress

/-! ## graphs that hold what is there -/

section
variable (source : Source) (d : Dialect)

/-- the class `n`, as far as it is there -/
def classSoFar (f : Progress) (n : String) : ClassDecl where
  name := n
  iri := d.iri n
  parents :=
    if f.parents then addNew [] (d.localNames (source.objects (d.iri n) d.subclassOf)) else []
  properties := if f.attached then (extract source d).propertiesAt n else ∅
  comment := if f.comments then comment? source d (d.iri n) else none

/-- the property `n`, as far as it is there -/
def propertySoFar (f : Progress) (n : String) : PropertyDecl where
  name := n
  iri := d.iri n
  domains :=
    if f.domains then addNew [] (d.localNames (source.objects (d.iri n) d.domainIncludes)) else []
  ranges :=
    if f.domains then addNew [] (d.localNames (source.objects (d.iri n) d.rangeIncludes)) else []
  comment := if f.comments then comment? source d (d.iri n) else none

/-- the graph holds what is there, and nothing else -/
structure Reads (f : Progress) (g : Graph) : Prop where
  class? : ∀ n, g.class? n =
    if f.classes = true ∧ Declared source d d.classType n then some (classSoFar source d f n)
    else none
  property? : ∀ n, g.property? n =
    if f.properties = true ∧ Declared source d d.propertyType n then
      some (propertySoFar source d f n)
    else none

end

section
variable {source : Source} {d : Dialect} {f : Progress} {g h : Graph} {n : String}

/-- what is there determines the graph -/
theorem Reads.unique (hg : Reads source d f g) (hh : Reads source d f h) : g = h :=
  Graph.ext_lookups (fun n => (hg.class? n).trans (hh.class? n).symm)
    fun n => (hg.property? n).trans (hh.property? n).symm

theorem reads_empty : Reads source d .nothing .empty := ⟨fun _ => rfl, fun _ => rfl⟩

theorem reads_extract : Reads source d .full (extract source d) where
  class? n := by
    rw [class?_extract]
    simp only [Progress.full, true_and]
    rfl
  property? n := by
    rw [property?_extract]
    simp only [Progress.full, true_and]
    rfl

theorem reads_withoutComments : Reads source d .bare (extract source d).withoutComments where
  class? n := by
    rw [Graph.class?_withoutComments, reads_extract.class?, apply_ite (Option.map _)]
    rfl
  property? n := by
    rw [Graph.property?_withoutComments, reads_extract.property?, apply_ite (Option.map _)]
    rfl

/-! ## one step -/

theorem addNew_of_subset {names more : List String} (h : more ⊆ names) : addNew names more = names := by
  induction more with
  | nil => rfl
  | cons n more ih =>
    obtain ⟨hn, hmore⟩ := List.cons_subset.mp h
    show addNew (if n ∈ names then names else names ++ [n]) more = names
    rw [if_pos hn, ih hmore]

/-- names that are listed once are not listed again -/
theorem addNew_addNew (names : List String) : addNew (addNew [] names) names = addNew [] names :=
  addNew_of_subset fun _ hn => mem_addNew.mpr (Or.inr hn)

theorem eq_false_of_imp {a b : Bool} (h : a = true → b = true) (hb : b = false) : a = false := by
  cases a with
  | false => rfl
  | true => exact absurd (h rfl) (by rw [hb]; exact Bool.false_ne_true)

/-- before the classes are there, nothing is recorded of a class -/
theorem classSoFar_named (h : f.classes = false) :
    classSoFar source d f n = .named n (d.iri n) := by
  have hparents : f.parents = false := eq_false_of_imp f.classes_of_parents h
  have hattached : f.attached = false := eq_false_of_imp f.classes_of_attached h
  have hcomments : f.comments = false :=
    eq_false_of_imp (fun hc => (f.terms_of_comments hc).1) h
  unfold classSoFar
  rw [hparents, hattached, hcomments]
  rfl

theorem propertySoFar_named (h : f.properties = false) :
    propertySoFar source d f n = .named n (d.iri n) := by
  have hdomains : f.domains = false := eq_false_of_imp f.properties_of_domains h
  have hcomments : f.comments = false :=
    eq_false_of_imp (fun hc => (f.terms_of_comments hc).2) h
  unfold propertySoFar
  rw [hdomains, hcomments]
  rfl

theorem Reads.collectClasses (hg : Reads source d f g) :
    Reads source d (f.after .classes) (collectClasses source d g) where
  class? n := by
    have hafter : (f.after .classes).classes = true := rfl
    rw [class?_collectClasses, hg.class?]
    cases hc : f.classes with
    | true =>
      have hsame : classSoFar source d (f.after .classes) n = classSoFar source d f n := rfl
      simp only [hafter, hsame, true_and]
      split <;> rfl
    | false =>
      have hnew : classSoFar source d (f.after .classes) n = .named n (d.iri n) :=
        (classSoFar_named hc : classSoFar source d f n = _)
      simp only [hafter, hnew, true_and, Bool.false_eq_true, false_and, if_false, Option.none_or]
  property? n := hg.property? n

theorem Reads.collectProperties (hg : Reads source d f g) :
    Reads source d (f.after .properties) (collectProperties source d g) where
  class? n := hg.class? n
  property? n := by
    have hafter : (f.after .properties).properties = true := rfl
    rw [property?_collectProperties, hg.property?]
    cases hp : f.properties with
    | true =>
      have hsame : propertySoFar source d (f.after .properties) n = propertySoFar source d f n := rfl
      simp only [hafter, hsame, true_and]
      split <;> rfl
    | false =>
      have hnew : propertySoFar source d (f.after .properties) n = .named n (d.iri n) :=
        (propertySoFar_named hp : propertySoFar source d f n = _)
      simp only [hafter, hnew, true_and, Bool.false_eq_true, false_and, if_false, Option.none_or]

theorem Reads.resolveSubclassing (hg : Reads source d f g) :
    Reads source d (f.after .subclassing) (resolveSubclassing source d g) where
  class? n := by
    rw [class?_resolveSubclassing, hg.class?, apply_ite (Option.map _)]
    refine ite_congr rfl (fun h => congrArg some ?_) fun _ => rfl
    -- parents that were there already are not entered twice
    have hafter : (f.after .subclassing).parents = true := h.1
    unfold classSoFar
    rw [hafter]
    cases f.parents with
    | true =>
      simp only [if_true, addNew_addNew]
      rfl
    | false => rfl
  property? n := hg.property? n

theorem Reads.resolveDomainsAndRanges (hg : Reads source d f g) :
    Reads source d (f.after .domainsAndRanges) (resolveDomainsAndRanges source d g) where
  class? n := hg.class? n
  property? n := by
    rw [property?_resolveDomainsAndRanges, hg.property?, apply_ite (Option.map _)]
    refine ite_congr rfl (fun h => congrArg some ?_) fun _ => rfl
    have hafter : (f.after .domainsAndRanges).domains = true := h.1
    unfold propertySoFar
    rw [hafter]
    rfl

/-- only properties whose domains are there are entered at classes -/
theorem Reads.mem_propertiesAt {p : String} (hg : Reads source d f g) : p ∈ g.propertiesAt n ↔
    f.domains = true ∧ Declared source d d.propertyType p ∧
      n ∈ addNew [] (d.localNames (source.objects (d.iri p) d.domainIncludes)) := by
  rw [Graph.mem_propertiesAt]
  constructor
  · rintro ⟨k, q, hq, hn, rfl⟩
    rw [hg.property?] at hq
    split at hq
    · rename_i h
      cases hq
      cases hd : f.domains with
      | true =>
        unfold propertySoFar at hn
        rw [hd] at hn
        exact ⟨rfl, h.2, hn⟩
      | false =>
        unfold propertySoFar at hn
        rw [hd] at hn
        exact absurd hn List.not_mem_nil
    · cases hq
  · rintro ⟨hd, hdecl, hn⟩
    refine ⟨p, propertySoFar source d f p, ?_, ?_, rfl⟩
    · rw [hg.property?, if_pos ⟨f.properties_of_domains hd, hdecl⟩]
    · unfold propertySoFar
      rw [hd]
      exact hn

theorem Reads.propertiesAt (hg : Reads source d f g) (hd : f.domains = true) :
    g.propertiesAt n = (extract source d).propertiesAt n := by
  refine NameSet.ext fun p => ?_
  rw [hg.mem_propertiesAt, reads_extract.mem_propertiesAt, and_iff_right hd]
  exact (and_iff_right rfl).symm

theorem Reads.attachProperties (hg : Reads source d f g) :
    Reads source d (f.after .attaching) g.attachProperties where
  class? n := by
    rw [Graph.class?_attachProperties, hg.class?, apply_ite (Option.map _)]
    refine ite_congr rfl (fun h => congrArg some ?_) fun _ => rfl
    refine congrArg (ClassDecl.mk n (d.iri n) _ · _) (NameSet.ext fun p => ?_)
    have hclasses : f.classes = true := h.1
    have hafter : (f.after .attaching).attached = f.domains := by
      show (f.classes && f.domains) = f.domains
      rw [hclasses, Bool.true_and]
    show p ∈ (if f.attached then _ else _ : NameSet).union _ ↔ _
    rw [hafter, NameSet.mem_union]
    cases hd : f.domains with
    | true =>
      -- what was entered before is among what is entered now
      rw [hg.propertiesAt hd, if_pos rfl]
      refine or_iff_right_of_imp fun hp => ?_
      split at hp
      · exact hp
      · exact absurd hp (NameSet.not_mem_empty p)
    | false =>
      have hattached : f.attached = false := eq_false_of_imp f.domains_of_attached hd
      have hnone : p ∉ g.propertiesAt n := fun hp => by
        have hdomains := (hg.mem_propertiesAt.mp hp).1
        rw [hd] at hdomains
        cases hdomains
      rw [hattached]
      exact or_iff_left hnone
  property? n := hg.property? n

theorem Reads.step (hg : Reads source d f g) (step : Step) :
    Reads source d (f.after step) (step.apply source d g) := by
  cases step with
  | classes => exact hg.collectClasses
  | properties => exact hg.collectProperties
  | subclassing => exact hg.resolveSubclassing
  | domainsAndRanges => exact hg.resolveDomainsAndRanges
  | attaching => exact hg.attachProperties

/-- **A run does to a graph what it does to the flags.** -/
theorem Reads.run (hg : Reads source d f g) (steps : List Step) :
    Reads source d (f.afterAll steps) (run source d steps g) := by
  induction steps generalizing f g with
  | nil => exact hg
  | cons step steps ih => exact ih (hg.step step)

end

/-! ## complete runs -/

/-- a step is taken, and what stands in front of it is as wanted -/
def Follows (step : Step) (wanted : List Step → Prop) (steps : List Step) : Prop :=
  ∃ front rest, steps = front ++ step :: rest ∧ wanted front

/-- the steps that need others come after them, at least once -/
structure Complete (steps : List Step) : Prop where
  subclassing : Follows .subclassing (.classes ∈ ·) steps
  attaching : Follows .attaching
    (fun front => .classes ∈ front ∧ Follows .domainsAndRanges (.properties ∈ ·) front) steps

theorem follows_of_mem {step : Step} {steps : List Step} (h : step ∈ steps) :
    Follows step (fun _ => True) steps := by
  obtain ⟨front, rest, e⟩ := List.append_of_mem h
  exact ⟨front, rest, e, trivial⟩

namespace Progress

/-- a flag that no step takes back -/
def Kept (flag : Progress → Bool) : Prop :=
  ∀ f step, flag f = true → flag (f.after step) = true

section
variable {flag : Progress → Bool} {wanted : List Step → Prop} {f : Progress} {step : Step}
  {steps : List Step}

theorem Kept.afterAll (hk : Kept flag) (h : flag f = true) (steps : List Step) :
    flag (f.afterAll steps) = true := by
  induction steps generalizing f with
  | nil => exact h
  | cons step steps ih => exact ih (hk f step h)

theorem Kept.of_follows (hk : Kept flag)
    (hset : ∀ front, wanted front → flag ((f.afterAll front).after step) = true)
    (h : Follows step wanted steps) : flag (f.afterAll steps) = true := by
  obtain ⟨front, rest, rfl, hw⟩ := h
  show flag ((front ++ step :: rest).foldl after f) = true
  rw [List.foldl_append]
  exact hk.afterAll (hset front hw) rest

theorem kept_classes : Kept classes := fun f step h => by
  cases step with
  | classes => rfl
  | _ => exact h

theorem kept_properties : Kept properties := fun f step h => by
  cases step with
  | properties => rfl
  | _ => exact h

theorem kept_parents : Kept parents := fun f step h => by
  cases step with
  | subclassing => exact f.classes_of_parents h
  | _ => exact h

theorem kept_domains : Kept domains := fun f step h => by
  cases step with
  | domainsAndRanges => exact f.properties_of_domains h
  | _ => exact h

theorem kept_attached : Kept attached := fun f step h => by
  cases step with
  | attaching =>
    exact Bool.and_eq_true_iff.mpr ⟨f.classes_of_attached h, f.domains_of_attached h⟩
  | _ => exact h

theorem classes_of_mem (h : .classes ∈ steps) : (f.afterAll steps).classes = true :=
  kept_classes.of_follows (fun _ _ => rfl) (follows_of_mem h)

theorem properties_of_mem (h : .properties ∈ steps) : (f.afterAll steps).properties = true :=
  kept_properties.of_follows (fun _ _ => rfl) (follows_of_mem h)

theorem domains_of_follows (h : Follows .domainsAndRanges (.properties ∈ ·) steps) :
    (f.afterAll steps).domains = true := by
  refine kept_domains.of_follows (fun front hp => ?_) h
  show (f.afterAll front).properties = true
  exact properties_of_mem hp

theorem comments_afterAll (f : Progress) (steps : List Step) :
    (f.afterAll steps).comments = f.comments := by
  induction steps generalizing f with
  | nil => rfl
  | cons step steps ih =>
    have hstep : (f.after step).comments = f.comments := by cases step <;> rfl
    exact (ih _).trans hstep

/-- a complete run fills in everything but the comments -/
theorem afterAll_eq_bare (h : Complete steps) : nothing.afterAll steps = bare := by
  have hparents : (nothing.afterAll steps).parents = true := by
    refine kept_parents.of_follows (fun front hc => ?_) h.subclassing
    show (nothing.afterAll front).classes = true
    exact classes_of_mem hc
  have hattached : (nothing.afterAll steps).attached = true := by
    refine kept_attached.of_follows (fun front hw => ?_) h.attaching
    show ((nothing.afterAll front).classes && (nothing.afterAll front).domains) = true
    rw [classes_of_mem hw.1, domains_of_follows hw.2]
    rfl
  have hdomains := (nothing.afterAll steps).domains_of_attached hattached
  have hclasses := (nothing.afterAll steps).classes_of_attached hattached
  have hproperties := (nothing.afterAll steps).properties_of_domains hdomains
  have hcomments := comments_afterAll nothing steps
  exact Progress.ext hclasses hproperties hparents hdomains hattached hcomments

end

end Progress

/-- **The steps of extraction come to the same in any order, and however often they are taken**, as long as
those that need others come after them: what a complete run makes of the empty graph is the extracted graph
without its comments.  And no step changes the extracted graph any more. -/
theorem steps_confluent (source : Source) (d : Dialect) :
    (∀ steps, Complete steps →
      run source d steps .empty = (extract source d).withoutComments) ∧
    ∀ step : Step, step.apply source d (extract source d) = extract source d := by
  constructor
  · intro steps h
    have hrun : Reads source d _ (run source d steps .empty) := reads_empty.run steps
    rw [Progress.afterAll_eq_bare h] at hrun
    exact hrun.unique reads_withoutComments
  · intro step
    have hfull : Progress.full.after step = .full := by cases step <;> rfl
    have hstep : Reads source d _ (step.apply source d (extract source d)) := reads_extract.step step
    rw [hfull] at hstep
    exact hstep.unique reads_extract

/-- steps that are taken too early, twice, and in another order -/
def scattered : List Step :=
  [.attaching, .domainsAndRanges, .classes, .properties, .attaching, .subclassing, .classes,
    .domainsAndRanges, .properties, .attaching, .domainsAndRanges]

theorem scattered_complete : Complete scattered where
  subclassing := ⟨[.attaching, .domainsAndRanges, .classes, .properties, .attaching], _, rfl,
    by decide⟩
  attaching := ⟨[.attaching, .domainsAndRanges, .classes, .properties, .attaching, .subclassing,
    .classes, .domainsAndRanges, .properties], _, rfl, by decide,
    [.attaching, .domainsAndRanges, .classes, .properties, .attaching, .subclassing, .classes], _,
    rfl, by decide⟩

/-- a class with a comment, a parent and a property -/
def commentedDog : List Triple :=
  let d := Dialect.schemaOrg
  [⟨d.iri "barks", d.domainIncludes, d.iri "Dog"⟩, ⟨d.iri "Dog", d.subclassOf, d.iri "Animal"⟩,
    ⟨d.iri "Dog", d.comment, "Man's best friend."⟩,
    ⟨d.iri "Dog", d.typePredicate, d.classType⟩,
    ⟨d.iri "barks", d.typePredicate, d.propertyType⟩]

theorem steps_confluent_scattered :
    run (.ofTriples commentedDog) .schemaOrg scattered .empty =
        (extract (.ofTriples commentedDog) .schemaOrg).withoutComments ∧
      (extract (.ofTriples commentedDog) .schemaOrg).class? "Dog" =
        some ⟨"Dog", "https://schema.org/Dog", ["Animal"], .ofList ["barks"],
          some "Man's best friend."⟩ ∧
      Step.attaching.apply (.ofTriples commentedDog) .schemaOrg
        (extract (.ofTriples commentedDog) .schemaOrg) =
          extract (.ofTriples commentedDog) .schemaOrg := by
  obtain ⟨hruns, hsteps⟩ := steps_confluent (.ofTriples commentedDog) .schemaOrg
  exact ⟨hruns scattered scattered_complete, by decide +kernel, hsteps .attaching⟩

end TypedVocabulary.Extraction
