import HybridLog.Async.Tally

/-!
# Paths through a program

A path lists the turns a program takes from its start to the value it returns: how its requests
are answered and which branches it goes on with. The programs it leaves running are not followed.

What holds along every path follows from the rules of `Follows` and `Emits`; a path says what has
happened in one of the ways the program may go.
-/

namespace Async

inductive Turn (E : Type) (R : E → Type)
  | call (e : E) (r : R e)
  | fork
  | left
  | right

variable {E : Type} {R : E → Type} {T X : Type} {α β ε : Type}

/-- A program that takes the turns of a list returns a value. -/
def Path : {α : Type} → Prog E R α → List (Turn E R) → α → Prop
  | _, .pure a, l, b => l = [] ∧ b = a
  | _, .call e k, l, b => ∃ r l', l = .call e r :: l' ∧ Path (k r) l' b
  | _, .fork _ k, l, b => ∃ l', l = .fork :: l' ∧ Path k l' b
  | _, .amb p q, l, b =>
    (∃ l', l = .left :: l' ∧ Path p l' b) ∨ ∃ l', l = .right :: l' ∧ Path q l' b

lemma path_bind {p : Prog E R α} {f : α → Prog E R β} {l : List (Turn E R)} {b : β} :
    Path (p.bind f) l b ↔ ∃ l₁ l₂ a, l = l₁ ++ l₂ ∧ Path p l₁ a ∧ Path (f a) l₂ b := by
  induction p generalizing l with
  | pure a =>
    constructor
    · exact fun h => ⟨[], l, a, rfl, ⟨rfl, rfl⟩, h⟩
    · rintro ⟨l₁, l₂, a, rfl, ⟨rfl, rfl⟩, h⟩
      exact h
  | call e k ih =>
    constructor
    · rintro ⟨r, l', rfl, h⟩
      obtain ⟨l₁, l₂, a, rfl, hp, hf⟩ := (ih r).mp h
      exact ⟨.call e r :: l₁, l₂, a, rfl, ⟨r, l₁, rfl, hp⟩, hf⟩
    · rintro ⟨_, l₂, a, rfl, ⟨r, l₁, rfl, hp⟩, hf⟩
      exact ⟨r, l₁ ++ l₂, rfl, (ih r).mpr ⟨l₁, l₂, a, rfl, hp, hf⟩⟩
  | fork c k _ ihk =>
    constructor
    · rintro ⟨l', rfl, h⟩
      obtain ⟨l₁, l₂, a, rfl, hp, hf⟩ := ihk.mp h
      exact ⟨.fork :: l₁, l₂, a, rfl, ⟨l₁, rfl, hp⟩, hf⟩
    · rintro ⟨_, l₂, a, rfl, ⟨l₁, rfl, hp⟩, hf⟩
      exact ⟨l₁ ++ l₂, rfl, ihk.mpr ⟨l₁, l₂, a, rfl, hp, hf⟩⟩
  | amb p q ihp ihq =>
    constructor
    · rintro (⟨l', rfl, h⟩ | ⟨l', rfl, h⟩)
      · obtain ⟨l₁, l₂, a, rfl, hp, hf⟩ := ihp.mp h
        exact ⟨.left :: l₁, l₂, a, rfl, .inl ⟨l₁, rfl, hp⟩, hf⟩
      · obtain ⟨l₁, l₂, a, rfl, hp, hf⟩ := ihq.mp h
        exact ⟨.right :: l₁, l₂, a, rfl, .inr ⟨l₁, rfl, hp⟩, hf⟩
    · rintro ⟨_, l₂, a, rfl, ⟨l₁, rfl, hp⟩ | ⟨l₁, rfl, hp⟩, hf⟩
      · exact .inl ⟨l₁ ++ l₂, rfl, ihp.mpr ⟨l₁, l₂, a, rfl, hp, hf⟩⟩
      · exact .inr ⟨l₁ ++ l₂, rfl, ihq.mpr ⟨l₁, l₂, a, rfl, hp, hf⟩⟩

/-- No path goes on where another one ends. -/
lemma Path.unique {p : Prog E R α} {l₁ l₂ m₁ m₂ : List (Turn E R)} {a b : α} (h : Path p l₁ a)
    (h' : Path p m₁ b) (heq : l₁ ++ l₂ = m₁ ++ m₂) : l₁ = m₁ ∧ a = b := by
  induction p generalizing l₁ m₁ with
  | pure c =>
    obtain ⟨rfl, rfl⟩ := h
    obtain ⟨rfl, rfl⟩ := h'
    exact ⟨rfl, rfl⟩
  | call e k ih =>
    obtain ⟨r, l, rfl, h⟩ := h
    obtain ⟨r', m, rfl, h'⟩ := h'
    obtain ⟨hturn, htail⟩ := List.cons.inj heq
    cases hturn
    obtain ⟨rfl, rfl⟩ := ih r h h' htail
    exact ⟨rfl, rfl⟩
  | fork c k _ ihk =>
    obtain ⟨l, rfl, h⟩ := h
    obtain ⟨m, rfl, h'⟩ := h'
    obtain ⟨rfl, rfl⟩ := ihk h h' (List.cons.inj heq).2
    exact ⟨rfl, rfl⟩
  | amb p q ihp ihq =>
    rcases h with ⟨l, rfl, h⟩ | ⟨l, rfl, h⟩ <;> rcases h' with ⟨m, rfl, h'⟩ | ⟨m, rfl, h'⟩
    · obtain ⟨rfl, rfl⟩ := ihp h h' (List.cons.inj heq).2
      exact ⟨rfl, rfl⟩
    · cases (List.cons.inj heq).1
    · cases (List.cons.inj heq).1
    · obtain ⟨rfl, rfl⟩ := ihq h h' (List.cons.inj heq).2
      exact ⟨rfl, rfl⟩

/-- The path on which an oracle answers the requests, knowing those before. -/
def Prog.walk (answer : List E → (e : E) → R e) : {α : Type} → Prog E R α → List E →
    List (Turn E R) × α
  | _, .pure a, _ => ([], a)
  | _, .call e k, done =>
    let next := (k (answer done e)).walk answer (done ++ [e])
    (.call e (answer done e) :: next.1, next.2)
  | _, .fork _ k, done => (.fork :: (k.walk answer done).1, (k.walk answer done).2)
  | _, .amb p _, done => (.left :: (p.walk answer done).1, (p.walk answer done).2)

lemma path_walk (answer : List E → (e : E) → R e) (p : Prog E R α) (done : List E) :
    Path p (p.walk answer done).1 (p.walk answer done).2 := by
  induction p generalizing done with
  | pure a => exact ⟨rfl, rfl⟩
  | call e k ih => exact ⟨_, _, rfl, ih _ _⟩
  | fork c k _ ihk => exact ⟨_, rfl, ihk _⟩
  | amb p q ihp _ => exact .inl ⟨_, rfl, ihp _⟩

/-! ### Requests along a path -/

def Turn.deed : Turn E R → Option (Σ e : E, R e)
  | .call e r => some ⟨e, r⟩
  | _ => none

/-- The answered requests of a path. -/
def deeds (l : List (Turn E R)) : Deeds E R := ↑(l.filterMap Turn.deed)

@[simp] lemma mem_deeds {l : List (Turn E R)} {e : E} {r : R e} :
    (⟨e, r⟩ : Σ e : E, R e) ∈ deeds l ↔ Turn.call e r ∈ l := by
  rw [deeds, Multiset.mem_coe, List.mem_filterMap]
  constructor
  · rintro ⟨turn, hmem, hturn⟩
    cases turn with
    | call e' r' =>
      cases hturn
      exact hmem
    | fork | left | right => cases hturn
  · exact fun h => ⟨_, h, rfl⟩

/-- The answered requests of a path as a trace. -/
def ownTrace (t : T) (l : List (Turn E R)) : Trace E R T X :=
  (l.filterMap Turn.deed).map fun d => .call t d.1 d.2

@[simp] lemma ownTrace_append (t : T) (l l' : List (Turn E R)) :
    (ownTrace t (l ++ l') : Trace E R T X) = ownTrace t l ++ ownTrace t l' := by
  rw [ownTrace, List.filterMap_append, List.map_append]
  rfl

lemma Emits.path {Q : α → Deeds E R → Prop} {p : Prog E R α} {own : Deeds E R}
    {l : List (Turn E R)} {a : α} (h : Emits Q p own) (hl : Path p l a) : Q a (own + deeds l) := by
  induction p generalizing own l with
  | pure b =>
    obtain ⟨rfl, rfl⟩ := hl
    rwa [deeds, List.filterMap_nil, Multiset.coe_nil, add_zero]
  | call e k ih =>
    obtain ⟨r, l', rfl, hl⟩ := hl
    have hk := ih r (h r) hl
    rwa [Multiset.cons_add, ← Multiset.add_cons] at hk
  | fork c k _ ihk =>
    obtain ⟨l', rfl, hl⟩ := hl
    exact ihk (l := l') h hl
  | amb p q ihp ihq =>
    rcases hl with ⟨l', rfl, hl⟩ | ⟨l', rfl, hl⟩
    · exact ihp (l := l') h.1 hl
    · exact ihq (l := l') h.2 hl

lemma Follows.path {P : Guard E R T X} {t : T} {Q : α → Trace E R T X → Prop} {p : Prog E R α}
    {tr : Trace E R T X} {l : List (Turn E R)} {a : α} (h : Follows P t Q p tr)
    (hl : Path p l a) : Q a (tr ++ ownTrace t l) := by
  induction p generalizing tr l with
  | pure b =>
    obtain ⟨rfl, rfl⟩ := hl
    exact h _ (List.prefix_append _ _)
  | call e k ih =>
    obtain ⟨r, l', rfl, hl⟩ := hl
    have hk := ih r ((h tr List.prefix_rfl).2 r) hl
    rwa [List.append_assoc] at hk
  | fork c k _ ihk =>
    obtain ⟨l', rfl, hl⟩ := hl
    exact ihk (l := l') h.2 hl
  | amb p q ihp ihq =>
    rcases hl with ⟨l', rfl, hl⟩ | ⟨l', rfl, hl⟩
    · exact ihp (l := l') h.1 hl
    · exact ihq (l := l') h.2 hl

/-- Every request of a path was allowed by the guard when it was made. -/
lemma Follows.path_guard {P : Guard E R T X} {t : T} {Q : α → Trace E R T X → Prop}
    {p : Prog E R α} {tr : Trace E R T X} {l : List (Turn E R)} {a : α} (h : Follows P t Q p tr)
    (hl : Path p l a) {e : E} {r : R e} (hmem : Turn.call e r ∈ l) : ∃ tr', P t e tr' := by
  induction p generalizing tr l with
  | pure b =>
    obtain ⟨rfl, rfl⟩ := hl
    cases hmem
  | call e' k ih =>
    obtain ⟨r', l', rfl, hl⟩ := hl
    rcases List.mem_cons.mp hmem with heq | hmem
    · cases heq
      exact ⟨tr, (h tr List.prefix_rfl).1⟩
    · exact ih r' ((h tr List.prefix_rfl).2 r') hl hmem
  | fork c k _ ihk =>
    obtain ⟨l', rfl, hl⟩ := hl
    exact ihk (l := l') h.2 hl (by simpa using hmem)
  | amb p q ihp ihq =>
    rcases hl with ⟨l', rfl, hl⟩ | ⟨l', rfl, hl⟩
    · exact ihp (l := l') h.1 hl (by simpa using hmem)
    · exact ihq (l := l') h.2 hl (by simpa using hmem)

/-! ### Tasks -/

/-- A task that takes the turns of a list resolves or rejects. -/
def TaskPath (p : Task E R ε α) (l : List (Turn E R)) (x : Except ε α) : Prop := Path p.run l x

section TaskPath

variable {l : List (Turn E R)}

lemma taskPath_pure {a : α} {x : Except ε α} :
    TaskPath (pure a : Task E R ε α) l x ↔ l = [] ∧ x = .ok a := Iff.rfl

lemma taskPath_throw {err : ε} {x : Except ε α} :
    TaskPath (throw err : Task E R ε α) l x ↔ l = [] ∧ x = .error err := Iff.rfl

lemma taskPath_request {e : E} {k : R e → Except ε α} {x : Except ε α} :
    TaskPath (Task.request e k) l x ↔ ∃ r, l = [.call e r] ∧ x = k r := by
  constructor
  · rintro ⟨r, l', rfl, rfl, rfl⟩
    exact ⟨r, rfl, rfl⟩
  · rintro ⟨r, rfl, rfl⟩
    exact ⟨r, [], rfl, rfl, rfl⟩

lemma taskPath_bind {p : Task E R ε α} {f : α → Task E R ε β} {x : Except ε β} :
    TaskPath (p >>= f) l x ↔
      (∃ l₁ l₂ a, l = l₁ ++ l₂ ∧ TaskPath p l₁ (.ok a) ∧ TaskPath (f a) l₂ x) ∨
        ∃ err, TaskPath p l (.error err) ∧ x = .error err := by
  constructor
  · intro h
    obtain ⟨l₁, l₂, r, rfl, hp, hf⟩ := path_bind.mp h
    cases r with
    | ok a => exact .inl ⟨l₁, l₂, a, rfl, hp, hf⟩
    | error err =>
      obtain ⟨rfl, rfl⟩ := hf
      exact .inr ⟨err, by rwa [List.append_nil], rfl⟩
  · rintro (⟨l₁, l₂, a, rfl, hp, hf⟩ | ⟨err, hp, rfl⟩)
    · exact path_bind.mpr ⟨l₁, l₂, .ok a, rfl, hp, hf⟩
    · exact path_bind.mpr ⟨l, [], .error err, (List.append_nil l).symm, hp, rfl, rfl⟩

lemma taskPath_tryCatch {p : Task E R ε α} {f : ε → Task E R ε α} {x : Except ε α} :
    TaskPath (tryCatch p f) l x ↔
      (∃ a, TaskPath p l (.ok a) ∧ x = .ok a) ∨
        ∃ l₁ l₂ err, l = l₁ ++ l₂ ∧ TaskPath p l₁ (.error err) ∧ TaskPath (f err) l₂ x := by
  constructor
  · intro h
    obtain ⟨l₁, l₂, r, rfl, hp, hf⟩ := path_bind.mp h
    cases r with
    | ok a =>
      obtain ⟨rfl, rfl⟩ := hf
      exact .inl ⟨a, by rwa [List.append_nil], rfl⟩
    | error err => exact .inr ⟨l₁, l₂, err, rfl, hp, hf⟩
  · rintro (⟨a, hp, rfl⟩ | ⟨l₁, l₂, err, rfl, hp, hf⟩)
    · exact path_bind.mpr ⟨l, [], .ok a, (List.append_nil l).symm, hp, rfl, rfl⟩
    · exact path_bind.mpr ⟨l₁, l₂, .error err, rfl, hp, hf⟩

lemma TaskPath.finallyDo {p : Task E R ε α} {f : Task E R ε Unit} {x : Except ε α}
    (h : TaskPath (p.finallyDo f) l x) :
    ∃ l₁ l₂ r r', l = l₁ ++ l₂ ∧ TaskPath p l₁ r ∧ TaskPath f l₂ r' := by
  obtain ⟨l₁, l', r, rfl, hp, hrest⟩ := path_bind.mp h
  obtain ⟨l₂, l₃, r', rfl, hf, hend⟩ := path_bind.mp hrest
  refine ⟨l₁, l₂, r, r', ?_, hp, hf⟩
  cases r' with
  | ok _ =>
    obtain ⟨rfl, -⟩ := hend
    rw [List.append_nil]
  | error err =>
    obtain ⟨rfl, -⟩ := hend
    rw [List.append_nil]

end TaskPath

end Async
