import Dynec.World.State
import Dynec.Entity.Visiting
import Mathlib.Data.List.Destutter

/-!
# Dangling references

When a deleted entity has strong references left, the world searches them in the
states of the systems, the globals and the components, and names the holders.
-/

namespace Dynec.World

open Referrer (Value Reference VisitMutArg)

structure SearchSingleStrong where
  ty : DbgTypeId
  raw : Nat
  found : List String
  current : String

namespace SearchSingleStrong

def new (ty : DbgTypeId) (raw : Nat) : SearchSingleStrong := ⟨ty, raw, [], ""⟩

def visitStrong (arch : DbgTypeId) (raw rc : Nat) (self : SearchSingleStrong) :
    (Nat × Nat) × SearchSingleStrong :=
  if arch = self.ty ∧ raw = self.raw ∧ self.found.getLast? ≠ some self.current then
    ((raw, rc), { self with found := self.found ++ [self.current] })
  else
    ((raw, rc), self)

def visitWeak (_arch : DbgTypeId) (raw rc : Nat) (self : SearchSingleStrong) :
    (Nat × Nat) × SearchSingleStrong :=
  ((raw, rc), self)

def visitor : VisitMutArg SearchSingleStrong := ⟨visitStrong, visitWeak⟩

def setDebugName (self : SearchSingleStrong) (name : String) : SearchSingleStrong :=
  { self with current := name }

end SearchSingleStrong

/-- A loop over items that are visited in place. -/
def visitEach {α σ : Type} (visit : α → σ → α × σ) : List α → σ → List α × σ
  | [], state => ([], state)
  | item :: items, state =>
    let (item, state) := visit item state
    let (items, state) := visitEach visit items state
    (item :: items, state)

theorem visitEach_cons {α σ : Type} (visit : α → σ → α × σ) (item : α) (items : List α)
    (state : σ) :
    visitEach visit (item :: items) state =
      ((visit item state).1 :: (visitEach visit items (visit item state).2).1,
        (visitEach visit items (visit item state).2).2) := rfl

/-- `UnnamedIter`: the values of a storage. -/
def unnamedIter : List (Value .one) → SearchSingleStrong →
    List (Value .one) × SearchSingleStrong :=
  visitEach fun value state => value.visitMut SearchSingleStrong.visitor state

/-- `NamedIter` and `NamedBoxIter`: items with names. -/
def namedIter {κ α : Type} (name : κ → String)
    (search : κ → α → SearchSingleStrong → α × SearchSingleStrong) :
    List (κ × α) → SearchSingleStrong → List (κ × α) × SearchSingleStrong :=
  visitEach fun item state =>
    let (value, state) := search item.1 item.2 (state.setDebugName (name item.1))
    ((item.1, value), state)

/-- The component values of an archetype, in the order in which its storages and
the chunks of each are iterated. -/
structure ComponentValues where
  simple : List (DbgTypeId × List (Value .one))
  isotope : List (DbgTypeId × List (Discrim × List (Value .one)))

/-- What the world searches for references: the states of its systems under
their names, the synchronized and the other globals, and the archetypes. -/
structure Holders where
  systems : List (String × Value .one)
  globals : List (DbgTypeId × Value .one)
  archetypes : List (DbgTypeId × ComponentValues)

/-- The texts of types and discriminants. -/
structure Texts where
  display : DbgTypeId → String
  typeName : DbgTypeId → String
  debug : DbgTypeId → Discrim → String

section
variable (texts : Texts)

def Texts.component (archetype comp : DbgTypeId) : String :=
  texts.display archetype ++ " / " ++ texts.display comp

def Texts.isotope (archetype comp : DbgTypeId) (discrim : Discrim) : String :=
  texts.typeName archetype ++ " / " ++ texts.typeName comp ++ " # " ++ texts.debug comp discrim

/-- `referrer_dyn_iter` of an archetype. -/
def ComponentValues.search (archetype : DbgTypeId) (self : ComponentValues)
    (state : SearchSingleStrong) : ComponentValues × SearchSingleStrong :=
  let (simple, state) := namedIter (texts.component archetype) (fun _ => unnamedIter)
    self.simple state
  let (isotope, state) := namedIter (texts.component archetype)
    (fun comp => namedIter (texts.isotope archetype comp) fun _ => unnamedIter) self.isotope state
  (⟨simple, isotope⟩, state)

/-- `search_references`, with what it leaves of the values it visits. -/
def searchReferences (self : Holders) (archetype : DbgTypeId) (entity : Nat) :
    List String × Holders :=
  let state := SearchSingleStrong.new archetype entity
  let visit := fun value state => Value.visitMut SearchSingleStrong.visitor value state
  let (systems, state) := namedIter (fun name => "system " ++ name) (fun _ => visit)
    self.systems state
  let (globals, state) := namedIter (fun ty => "global state " ++ texts.display ty)
    (fun _ => visit) self.globals state
  let (archetypes, state) := visitEach (fun e state =>
    let (typed, state) := e.2.search texts e.1 state
    ((e.1, typed), state)) self.archetypes state
  (state.found, ⟨systems, globals, archetypes⟩)

/-- The holders with their names and values, in the order of the search. -/
def ComponentValues.named (archetype : DbgTypeId) (self : ComponentValues) :
    List (String × List (Value .one)) :=
  self.simple.flatMap (fun c => [(texts.component archetype c.1, c.2)]) ++
    self.isotope.flatMap fun c =>
      c.2.flatMap fun d => [(texts.isotope archetype c.1 d.1, d.2)]

def Holders.named (self : Holders) : List (String × List (Value .one)) :=
  self.systems.flatMap (fun e => [("system " ++ e.1, [e.2])]) ++
    self.globals.flatMap (fun e => [("global state " ++ texts.display e.1, [e.2])]) ++
    self.archetypes.flatMap fun e => e.2.named texts e.1

end

/-! ## What the search finds -/

/-- A strong reference to the entity. -/
def refersTo (archetype : DbgTypeId) (entity : Nat) : Reference → Bool
  | .strong arch raw _ => decide (arch = archetype ∧ raw = entity)
  | .weak _ _ _ => false

def holds (archetype : DbgTypeId) (entity : Nat) (values : List (Value .one)) : Bool :=
  values.any fun value => value.references.any (refersTo archetype entity)

/-- A name is not repeated right after itself. -/
def report (found : List String) (name : String) : List String :=
  if found.getLast? = some name then found else found ++ [name]

theorem report_report (found : List String) (name : String) :
    report (report found name) name = report found name := by
  unfold report
  by_cases last : found.getLast? = some name
  · simp [last]
  · simp [last]

namespace SearchSingleStrong

/-- Report the current name when something was hit. -/
def hit (self : SearchSingleStrong) (hit : Bool) : SearchSingleStrong :=
  { self with found := if hit then report self.found self.current else self.found }

theorem hit_hit (self : SearchSingleStrong) (a b : Bool) :
    (self.hit a).hit b = self.hit (a || b) := by
  cases a <;> cases b <;> simp [hit, report_report]

theorem visitMut_eq {size : Referrer.Size} (value : Value size) (self : SearchSingleStrong) :
    value.visitMut visitor self =
      (value, self.hit (value.references.any (refersTo self.ty self.raw))) := by
  induction value generalizing self with
  | entity arch raw rc =>
    by_cases same : arch = self.ty ∧ raw = self.raw
    · by_cases last : self.found.getLast? = some self.current
      · simp [Value.visitMut, visitor, visitStrong, Value.references, refersTo, hit, report, same,
          last]
      · simp [Value.visitMut, visitor, visitStrong, Value.references, refersTo, hit, report, same,
          last]
    · simp [Value.visitMut, visitor, visitStrong, Value.references, refersTo, hit, same, ← and_assoc]
  | weak | none | nil =>
    simp [Value.visitMut, visitor, visitWeak, Value.references, refersTo, hit]
  | cons head tail ihHead ihTail =>
    simp only [Value.visitMut, Value.references, ihHead, ihTail, List.any_append, ← hit_hit]
    rfl
  | some _ ih | box _ ih | vec _ ih | vecDeque _ ih | linkedList _ ih | array _ ih | bTreeMap _ ih
  | hashMap _ ih | derived _ _ ih => simp only [Value.visitMut, Value.references, ih]

/-- The search from one state to another reports the holders among `names`, in
order. -/
structure Searched (names : List (String × List (Value .one)))
    (before after : SearchSingleStrong) : Prop where
  ty : after.ty = before.ty
  raw : after.raw = before.raw
  found : after.found =
    ((names.filter (holds before.ty before.raw ·.2)).map (·.1)).foldl report before.found

namespace Searched

variable {names names' : List (String × List (Value .one))}
  {before middle after : SearchSingleStrong}

theorem setDebugName (self : SearchSingleStrong) (name : String) :
    Searched [] self (self.setDebugName name) :=
  ⟨rfl, rfl, rfl⟩

theorem trans (first : Searched names before middle) (second : Searched names' middle after) :
    Searched (names ++ names') before after := by
  constructor
  · rw [second.ty, first.ty]
  · rw [second.raw, first.raw]
  · rw [second.found, first.found, first.ty, first.raw, List.filter_append, List.map_append,
      List.foldl_append]

theorem hit (self : SearchSingleStrong) (values : List (Value .one)) :
    Searched [(self.current, values)] self (self.hit (holds self.ty self.raw values)) := by
  constructor
  · rfl
  · rfl
  · cases found : holds self.ty self.raw values
    · simp [SearchSingleStrong.hit, found]
    · simp [SearchSingleStrong.hit, found]

theorem visitEach {α : Type} {visit : α → SearchSingleStrong → α × SearchSingleStrong}
    {f : α → List (String × List (Value .one))}
    (step : ∀ item self, (visit item self).1 = item ∧ Searched (f item) self (visit item self).2)
    (items : List α) (self : SearchSingleStrong) :
    (visitEach visit items self).1 = items ∧
      Searched (items.flatMap f) self (visitEach visit items self).2 := by
  induction items generalizing self with
  | nil => exact ⟨rfl, rfl, rfl, rfl⟩
  | cons item items ih =>
    obtain ⟨kept, first⟩ := step item self
    obtain ⟨others, rest⟩ := ih (visit item self).2
    constructor
    · rw [visitEach_cons, kept, others]
    · exact first.trans rest

theorem namedIter {κ α : Type} {name : κ → String}
    {search : κ → α → SearchSingleStrong → α × SearchSingleStrong}
    {f : κ × α → List (String × List (Value .one))}
    (step : ∀ key value self, self.current = name key →
      (search key value self).1 = value ∧
        Searched (f (key, value)) self (search key value self).2)
    (items : List (κ × α)) (self : SearchSingleStrong) :
    (namedIter name search items self).1 = items ∧
      Searched (items.flatMap f) self (namedIter name search items self).2 := by
  apply visitEach
  intro item self
  obtain ⟨kept, searched⟩ := step item.1 item.2 (self.setDebugName (name item.1)) rfl
  constructor
  · exact Prod.ext rfl kept
  · exact (setDebugName self _).trans searched

end Searched

/-- A single value is searched under the current name. -/
theorem searched_value (value : Value .one) (self : SearchSingleStrong) :
    (value.visitMut visitor self).1 = value ∧
      Searched [(self.current, [value])] self (value.visitMut visitor self).2 := by
  rw [visitMut_eq]
  constructor
  · rfl
  · have searched := Searched.hit self [value]
    simp only [holds, List.any_cons, List.any_nil, Bool.or_false] at searched
    exact searched

theorem unnamedIter_eq (values : List (Value .one)) (self : SearchSingleStrong) :
    unnamedIter values self = (values, self.hit (holds self.ty self.raw values)) := by
  induction values generalizing self with
  | nil => rfl
  | cons value values ih =>
    have rest := ih (self.hit (value.references.any (refersTo self.ty self.raw)))
    unfold unnamedIter at rest ⊢
    rw [visitEach_cons, visitMut_eq, rest]
    exact congrArg (value :: values, ·) (hit_hit self _ _)

theorem searched_values (values : List (Value .one)) (self : SearchSingleStrong) :
    (unnamedIter values self).1 = values ∧
      Searched [(self.current, values)] self (unnamedIter values self).2 := by
  rw [unnamedIter_eq]
  exact ⟨rfl, .hit self values⟩

/-- Storages under names. -/
theorem searched_storages {κ : Type} (name : κ → String) (items : List (κ × List (Value .one)))
    (self : SearchSingleStrong) :
    (namedIter name (fun _ => unnamedIter) items self).1 = items ∧
      Searched (items.flatMap fun e => [(name e.1, e.2)]) self
        (namedIter name (fun _ => unnamedIter) items self).2 := by
  apply Searched.namedIter
  intro key values self named
  rw [← named]
  exact searched_values values self

theorem searched_isotopes (texts : Texts) (archetype : DbgTypeId)
    (items : List (DbgTypeId × List (Discrim × List (Value .one)))) (self : SearchSingleStrong) :
    (namedIter (texts.component archetype)
      (fun comp => namedIter (texts.isotope archetype comp) fun _ => unnamedIter)
      items self).1 = items ∧
    Searched (items.flatMap fun c => c.2.flatMap fun d => [(texts.isotope archetype c.1 d.1, d.2)])
      self (namedIter (texts.component archetype)
        (fun comp => namedIter (texts.isotope archetype comp) fun _ => unnamedIter)
        items self).2 := by
  apply Searched.namedIter
  intro comp storages self _
  exact searched_storages (texts.isotope archetype comp) storages self

theorem searched_typed (texts : Texts) (archetype : DbgTypeId) (typed : ComponentValues)
    (self : SearchSingleStrong) :
    (typed.search texts archetype self).1 = typed ∧
      Searched (typed.named texts archetype) self (typed.search texts archetype self).2 := by
  obtain ⟨simple, first⟩ := searched_storages (texts.component archetype) typed.simple self
  obtain ⟨isotope, second⟩ := searched_isotopes texts archetype typed.isotope
    (namedIter (texts.component archetype) (fun _ => unnamedIter) typed.simple self).2
  constructor
  · unfold ComponentValues.search
    simp only [simple, isotope]
  · exact first.trans second

end SearchSingleStrong

open SearchSingleStrong

/-- Single values under names. -/
theorem searched_single {κ : Type} (name : κ → String) (items : List (κ × Value .one))
    (self : SearchSingleStrong) :
    (namedIter name (fun _ value state => value.visitMut visitor state) items self).1 = items ∧
      Searched (items.flatMap fun e => [(name e.1, [e.2])]) self
        (namedIter name (fun _ value state => value.visitMut visitor state) items self).2 := by
  apply Searched.namedIter
  intro key value self named
  rw [← named]
  exact searched_value value self

theorem searched_archetypes (texts : Texts) (items : List (DbgTypeId × ComponentValues))
    (self : SearchSingleStrong) :
    (visitEach (fun e state => ((e.1, (e.2.search texts e.1 state).1),
      (e.2.search texts e.1 state).2)) items self).1 = items ∧
      Searched (items.flatMap fun e => e.2.named texts e.1) self
        (visitEach (fun e state => ((e.1, (e.2.search texts e.1 state).1),
          (e.2.search texts e.1 state).2)) items self).2 := by
  apply Searched.visitEach
  intro item self
  obtain ⟨kept, searched⟩ := searched_typed texts item.1 item.2 self
  exact ⟨Prod.ext rfl kept, searched⟩

theorem searchReferences_searched (texts : Texts) (h : Holders) (archetype : DbgTypeId)
    (entity : Nat) :
    searchReferences texts h archetype entity =
      ((((h.named texts).filter (holds archetype entity ·.2)).map (·.1)).foldl report [], h) := by
  obtain ⟨systems, first⟩ := searched_single ("system " ++ ·) h.systems (.new archetype entity)
  obtain ⟨globals, second⟩ := searched_single (fun ty => "global state " ++ texts.display ty)
    h.globals (namedIter ("system " ++ ·) (fun _ value state => value.visitMut visitor state)
      h.systems (.new archetype entity)).2
  obtain ⟨archetypes, third⟩ := searched_archetypes texts h.archetypes
    (namedIter (fun ty => "global state " ++ texts.display ty)
      (fun _ value state => value.visitMut visitor state) h.globals
      (namedIter ("system " ++ ·) (fun _ value state => value.visitMut visitor state)
        h.systems (.new archetype entity)).2).2
  have searched := (first.trans second).trans third
  apply Prod.ext
  · exact searched.found
  · unfold searchReferences
    simp only [systems, globals]
    exact congrArg (Holders.mk h.systems h.globals) archetypes

/-- A report keeps a list whose neighbours differ so. -/
theorem foldl_report (found : List String) (last : String) (names : List String) :
    names.foldl report (found ++ [last]) = found ++ names.destutter' (· ≠ ·) last := by
  induction names generalizing found last with
  | nil => rfl
  | cons name names ih =>
    rw [List.foldl_cons, report, List.getLast?_concat]
    by_cases same : last = name
    · rw [if_pos (congrArg some same), ih, List.destutter'_cons_neg _ (not_not.mpr same)]
    · rw [if_neg fun equal => same (Option.some.inj equal), List.destutter'_cons_pos _ same, ih,
        List.append_assoc]
      rfl

theorem foldl_report_nil (names : List String) :
    names.foldl report [] = names.destutter (· ≠ ·) := by
  cases names with
  | nil => rfl
  | cons name names => exact foldl_report [] name names

theorem mem_destutter' (names : List String) (last name : String) :
    name ∈ names.destutter' (· ≠ ·) last ↔ name = last ∨ name ∈ names := by
  induction names generalizing last with
  | nil => simp
  | cons head names ih =>
    by_cases same : last = head
    · rw [List.destutter'_cons_neg _ (not_not.mpr same), ih, same, List.mem_cons, ← or_assoc,
        or_self]
    · rw [List.destutter'_cons_pos _ same, List.mem_cons, ih, List.mem_cons]

theorem mem_destutter (names : List String) (name : String) :
    name ∈ names.destutter (· ≠ ·) ↔ name ∈ names := by
  cases names with
  | nil => rfl
  | cons head names => rw [List.destutter_cons', mem_destutter', List.mem_cons]

theorem refersTo_iff (archetype : DbgTypeId) (entity : Nat) (reference : Reference) :
    refersTo archetype entity reference = true ↔ ∃ rc, reference = .strong archetype entity rc := by
  cases reference with
  | strong arch raw rc => simp [refersTo, and_comm]
  | weak arch raw rc => simp [refersTo]

theorem holds_iff (archetype : DbgTypeId) (entity : Nat) (values : List (Value .one)) :
    holds archetype entity values = true ↔
      ∃ value ∈ values, ∃ rc, .strong archetype entity rc ∈ value.references := by
  simp only [holds, List.any_eq_true, refersTo_iff]
  constructor
  · rintro ⟨value, member, reference, refers, rc, rfl⟩
    exact ⟨value, member, rc, refers⟩
  · rintro ⟨value, member, rc, refers⟩
    exact ⟨value, member, _, refers, rc, rfl⟩

/-- **The search names every holder.** It visits all values without a change and
reports, in the order of the search and each once in a row, the names under
which there is a strong reference to the entity, and no others. -/
theorem search_references_exact (texts : Texts) (h : Holders) (archetype : DbgTypeId)
    (entity : Nat) :
    searchReferences texts h archetype entity =
      ((((h.named texts).filter (holds archetype entity ·.2)).map (·.1)).destutter (· ≠ ·), h) ∧
    ∀ name, name ∈ (searchReferences texts h archetype entity).1 ↔
      ∃ values, (name, values) ∈ h.named texts ∧
        ∃ value ∈ values, ∃ rc, .strong archetype entity rc ∈ value.references := by
  have whole : searchReferences texts h archetype entity =
      ((((h.named texts).filter (holds archetype entity ·.2)).map (·.1)).destutter (· ≠ ·), h) := by
    rw [searchReferences_searched, foldl_report_nil]
  constructor
  · exact whole
  · intro name
    rw [whole]
    simp only [mem_destutter, List.mem_map, List.mem_filter, holds_iff]
    constructor
    · rintro ⟨⟨name, values⟩, ⟨listed, held⟩, rfl⟩
      exact ⟨values, listed, held⟩
    · rintro ⟨values, listed, held⟩
      exact ⟨(name, values), ⟨listed, held⟩, rfl⟩

end Dynec.World
