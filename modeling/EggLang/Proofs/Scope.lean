/-
# `EggLang.Proofs.Scope` — what binding a name changes for whom

A name is looked up along a chain: from a frame outward, in the first frame
that binds it.  Binding a name in one frame can therefore be seen from many,
and not from others, and it depends on the names of all frames in between:

    define x in e     seen by the frames that have e on their chain, with
                      no frame before it that binds x
    set x from e      seen by the frames that find x where e finds it
    update e          seen as the single definitions are, one after the other

Everybody else sees what they saw before (`bindings_seen`).

Two descriptions of a chain meet here.  `Walk` follows the links without a
bound, and `chain` is the walk that lookup takes; in a store whose links lead to
earlier frames they are the same (`Acyclic.walk_chain`).  What is seen is then a
question about one list: which of its frames is the first to give a value
(`lookup_eq_findSome?`), if one frame gives another than before
(`findSome?_changed`).
-/
import EggLang.Run
import EggLang.Store.Lemmas

namespace EggLang

namespace Store

/-! ## Walks -/

/-- Every frame is inside one that was made earlier, so no walk comes back. -/
def Acyclic (s : Store) : Prop := ∀ {f o}, s.outer? f = some o → o < f

/-- The walk from a frame along the links, to the frame that is inside no
other. -/
inductive Walk (s : Store) : FrameId → List FrameId → Prop
  | last {e : FrameId} : e < s.frames.size → s.outer? e = none → Walk s e [e]
  | link {e o : FrameId} {path : List FrameId} : s.outer? e = some o → Walk s o path →
      Walk s e (e :: path)

/-- Frame `e` is on the walk, and no frame before it binds `x`. -/
def Uncovered (s : Store) (path : List FrameId) (e : FrameId) (x : String) : Prop :=
  ∃ nearer farther, path = nearer ++ e :: farther ∧ ∀ f ∈ nearer, s.owns f x = false

section
variable {s t : Store} {e h : FrameId} {x y : String} {v : Value} {path : List FrameId}

theorem Acyclic.walk_chainFrom (hs : s.Acyclic) (n : Nat) :
    ∀ e, e < n → e < s.frames.size → s.Walk e (s.chainFrom n e) := by
  induction n with
  | zero =>
    intro e he
    exact absurd he (Nat.not_lt_zero e)
  | succ n ih =>
    intro e he hlt
    rw [chainFrom_succ, if_pos hlt]
    cases ho : s.outer? e with
    | none => exact .last hlt ho
    | some o =>
      have hoe := hs ho
      exact .link ho (ih o (Nat.lt_of_lt_of_le hoe (Nat.le_of_lt_succ he)) (Nat.lt_trans hoe hlt))

/-- The chain that lookup takes is the walk. -/
theorem Acyclic.walk_chain (hs : s.Acyclic) (he : e < s.frames.size) : s.Walk e (s.chain e) :=
  hs.walk_chainFrom (e + 1) e (Nat.lt_succ_self e) he

theorem Walk.unique {path' : List FrameId} (hpath : s.Walk e path) (hpath' : s.Walk e path') :
    path = path' := by
  induction hpath generalizing path' with
  | last _ ho =>
    cases hpath' with
    | last _ _ => rfl
    | link ho' _ => cases ho.symm.trans ho'
  | link ho _ ih =>
    cases hpath' with
    | last _ ho' => cases ho.symm.trans ho'
    | link ho' hrest =>
      cases ho.symm.trans ho'
      rw [ih hrest]

theorem Walk.lt_size (hpath : s.Walk e path) : e < s.frames.size := by
  cases hpath with
  | last he _ => exact he
  | link ho _ =>
    by_cases he : e < s.frames.size
    · exact he
    · simp [outer?, Array.getElem?_eq_none (Nat.le_of_not_lt he)] at ho

theorem Acyclic.eq_chain (hs : s.Acyclic) (hpath : s.Walk h path) : path = s.chain h :=
  hpath.unique (hs.walk_chain hpath.lt_size)

/-! ## Lookup along a chain -/

/-- A name has the value that the first frame of the chain gives it. -/
theorem lookup_eq_findSome? (s : Store) (e : FrameId) (x : String) :
    s.lookup e x =
      match (s.chain e).findSome? fun f => (s.bindings f).get? x with
      | some v => .ok v
      | none => .error (.unboundRead x) := by
  unfold lookup find?
  induction s.chain e with
  | nil => rfl
  | cons f fs ih =>
    have howns : s.owns f x = ((s.bindings f).get? x).isSome := Bindings.owns_eq_isSome_get? _ x
    cases hv : (s.bindings f).get? x with
    | some v =>
      rw [hv] at howns
      rw [List.find?_cons_of_pos (by exact howns)]
      simp only [List.findSome?_cons, hv]
    | none =>
      rw [hv] at howns
      rw [List.find?_cons_of_neg (by simp [howns])]
      simp only [List.findSome?_cons, hv]
      exact ih

/-- Only one item gives something else than before.  If nothing before it gives
anything, its result is the first. -/
theorem findSome?_uncovered {α β : Type} {g g' : α → Option β} {a : α} {r : β}
    (hsame : ∀ b, b ≠ a → g' b = g b) (ha : g' a = some r) (farther : List α) :
    ∀ nearer : List α, (∀ b ∈ nearer, g b = none) →
      (nearer ++ a :: farther).findSome? g' = some r := by
  intro nearer
  induction nearer with
  | nil =>
    intro _
    rw [List.nil_append, List.findSome?_cons, ha]
  | cons b nearer ih =>
    intro hnearer
    obtain ⟨hb, hrest⟩ := List.forall_mem_cons.mp hnearer
    rw [List.cons_append, List.findSome?_cons]
    by_cases hba : b = a
    · rw [hba, ha]
    · rw [hsame b hba, hb]
      exact ih hrest

/-- If something before it gives a result, the first one is as before. -/
theorem findSome?_changed {α β : Type} {g g' : α → Option β} {a : α}
    (hsame : ∀ b, b ≠ a → g' b = g b) (l : List α)
    (hlate : ¬ ∃ nearer farther, l = nearer ++ a :: farther ∧ ∀ b ∈ nearer, g b = none) :
    l.findSome? g' = l.findSome? g := by
  induction l with
  | nil => rfl
  | cons b l ih =>
    have hba : b ≠ a := by
      rintro rfl
      exact hlate ⟨[], l, rfl, nofun⟩
    rw [List.findSome?_cons, List.findSome?_cons, hsame b hba]
    cases hb : g b with
    | some r => rfl
    | none =>
      refine ih ?_
      rintro ⟨nearer, farther, rfl, hnearer⟩
      exact hlate ⟨b :: nearer, farther, rfl, List.forall_mem_cons.mpr ⟨hb, hnearer⟩⟩

/-! ## One frame with other bindings -/

/-- The stores differ in the bindings of one frame at most. -/
structure ChangedAt (e : FrameId) (s t : Store) : Prop where
  chain_eq : ∀ h, t.chain h = s.chain h
  bindings_eq : ∀ f, f ≠ e → t.bindings f = s.bindings f

theorem ChangedAt.refl (e : FrameId) (s : Store) : ChangedAt e s s :=
  ⟨fun _ => rfl, fun _ _ => rfl⟩

theorem ChangedAt.trans {u : Store} (h : ChangedAt e s t) (h' : ChangedAt e t u) :
    ChangedAt e s u where
  chain_eq g := (h'.chain_eq g).trans (h.chain_eq g)
  bindings_eq f hf := (h'.bindings_eq f hf).trans (h.bindings_eq f hf)

theorem changedAt_define (s : Store) (e : FrameId) (x : String) (v : Value) :
    ChangedAt e s (s.define e x v) where
  chain_eq h := chain_define s e h x v
  bindings_eq _ hf := bindings_define_of_ne x v (Ne.symm hf)

theorem changedAt_update (e : FrameId) (pairs : List (String × Value)) :
    ∀ s : Store, ChangedAt e s (s.update e pairs) := by
  induction pairs with
  | nil =>
    intro s
    exact .refl e s
  | cons p pairs ih =>
    intro s
    exact (changedAt_define s e p.1 p.2).trans (ih (s.define e p.1 p.2))

theorem owns_eq_false_iff {f : FrameId} : s.owns f x = false ↔ (s.bindings f).get? x = none := by
  unfold owns
  rw [Bindings.owns_eq_isSome_get?]
  cases (s.bindings f).get? x <;> simp

/-- What the changed frame binds is seen where it is uncovered. -/
theorem ChangedAt.lookup_uncovered (hst : ChangedAt e s t) (hpath : s.Uncovered (s.chain h) e y)
    (hv : (t.bindings e).get? y = some v) : t.lookup h y = .ok v := by
  obtain ⟨nearer, farther, hchain, hnearer⟩ := hpath
  have hsame : ∀ f, f ≠ e → (t.bindings f).get? y = (s.bindings f).get? y := by
    intro f hf
    rw [hst.bindings_eq f hf]
  have hnone : ∀ f ∈ nearer, (s.bindings f).get? y = none :=
    fun f hf => owns_eq_false_iff.mp (hnearer f hf)
  rw [lookup_eq_findSome?, hst.chain_eq, hchain, findSome?_uncovered hsame hv farther nearer hnone]

/-- Where it is covered, everything is seen as before. -/
theorem ChangedAt.lookup_covered (hst : ChangedAt e s t)
    (hpath : ¬ s.Uncovered (s.chain h) e y) : t.lookup h y = s.lookup h y := by
  rw [lookup_eq_findSome?, lookup_eq_findSome?, hst.chain_eq]
  rw [findSome?_changed (a := e) (g := fun f => (s.bindings f).get? y)]
  · intro f hf
    rw [hst.bindings_eq f hf]
  · rintro ⟨nearer, farther, hchain, hnearer⟩
    exact hpath ⟨nearer, farther, hchain, fun f hf => owns_eq_false_iff.mpr (hnearer f hf)⟩

/-- A name that the changed frame binds as before is seen as before. -/
theorem ChangedAt.lookup_of_get?_eq (hst : ChangedAt e s t) (h : FrameId)
    (hy : (t.bindings e).get? y = (s.bindings e).get? y) : t.lookup h y = s.lookup h y := by
  have hsame : (fun f => (t.bindings f).get? y) = fun f => (s.bindings f).get? y := by
    funext f
    by_cases hf : f = e
    · rw [hf, hy]
    · rw [hst.bindings_eq f hf]
  rw [lookup_eq_findSome?, lookup_eq_findSome?, hst.chain_eq, hsame]

/-! ## Definition -/

theorem get?_define (he : e < s.frames.size) (x y : String) (v : Value) :
    ((s.define e x v).bindings e).get? y = if y = x then some v else (s.bindings e).get? y := by
  rw [bindings_define_self x v he, Bindings.get?_put]

theorem lookup_define_uncovered (he : e < s.frames.size) (v : Value)
    (hpath : s.Uncovered (s.chain h) e x) : (s.define e x v).lookup h x = .ok v := by
  refine (changedAt_define s e x v).lookup_uncovered hpath ?_
  rw [get?_define he, if_pos rfl]

theorem lookup_define_otherwise (he : e < s.frames.size) (v : Value)
    (hother : ¬ (y = x ∧ s.Uncovered (s.chain h) e x)) :
    (s.define e x v).lookup h y = s.lookup h y := by
  have hst := changedAt_define s e x v
  by_cases hy : y = x
  · subst hy
    exact hst.lookup_covered fun hpath => hother ⟨rfl, hpath⟩
  · refine hst.lookup_of_get?_eq h ?_
    rw [get?_define he, if_neg hy]

/-! ## Assignment -/

/-- A frame finds a name in the first frame of its chain that binds it. -/
theorem find?_eq_some_iff {f : FrameId} :
    s.find? h x = some f ↔ s.owns f x = true ∧ s.Uncovered (s.chain h) f x := by
  unfold find? Uncovered
  rw [List.find?_eq_some_iff_append]
  simp only [Bool.not_eq_true']

theorem lt_size_of_owns {f : FrameId} (ho : s.owns f x = true) : f < s.frames.size := by
  by_cases hf : f < s.frames.size
  · exact hf
  · simp [owns, bindings, Bindings.owns, Array.getElem?_eq_none (Nat.le_of_not_lt hf)] at ho

/-- Assignment and lookup fail together. -/
theorem unbound_of_find? (v : Value) (hfind : s.find? e x = none) :
    s.lookup e x = .error (.unboundRead x) ∧ s.set e x v = .error (.unboundWrite x) := by
  unfold lookup set
  rw [hfind]
  exact ⟨rfl, rfl⟩

theorem lookup_of_find? {f : FrameId} (hfind : s.find? e x = some f) :
    ∃ w, s.lookup e x = .ok w := by
  have ho := owns_of_find? hfind
  unfold owns at ho
  rw [Bindings.owns_eq_isSome_get?, Option.isSome_iff_exists] at ho
  obtain ⟨w, hw⟩ := ho
  refine ⟨w, ?_⟩
  unfold lookup
  rw [hfind]
  simp only [hw]

theorem lookup_set {f : FrameId} (v : Value) (hfind : s.find? e x = some f) (h : FrameId)
    (y : String) : (s.define f x v).lookup h y =
      if y = x ∧ s.find? h x = some f then .ok v else s.lookup h y := by
  have ho := owns_of_find? hfind
  have hf := lt_size_of_owns ho
  split
  · next hseen =>
    obtain ⟨rfl, hh⟩ := hseen
    exact lookup_define_uncovered hf v (find?_eq_some_iff.mp hh).2
  · next hother =>
    refine lookup_define_otherwise hf v ?_
    rintro ⟨rfl, hpath⟩
    exact hother ⟨rfl, find?_eq_some_iff.mpr ⟨ho, hpath⟩⟩

theorem owns_define_of_owns {f : FrameId} (v : Value) (ho : s.owns f x = true) (g : FrameId)
    (z : String) : (s.define f x v).owns g z = s.owns g z := by
  have hnames := names_define_of_owns g v ho
  unfold owns
  rw [Bool.eq_iff_iff, Bindings.owns_iff_mem_names, Bindings.owns_iff_mem_names, hnames]

/-! ## Many definitions -/

theorem mapBindings_mapBindings (s : Store) (e : FrameId) (g k : Bindings → Bindings) :
    (s.mapBindings e g).mapBindings e k = s.mapBindings e fun bs => k (g bs) := by
  simp only [mapBindings, Store.mk.injEq, and_true]
  ext i
  · simp
  · simp only [Array.getElem_modify]
    split <;> rfl

theorem mapBindings_id (s : Store) (e : FrameId) : s.mapBindings e id = s := by
  obtain ⟨frames, fresh, printed⟩ := s
  simp only [mapBindings, Store.mk.injEq, and_true]
  ext i
  · simp
  · simp only [Array.getElem_modify, id]
    split <;> rfl

theorem update_eq_mapBindings (e : FrameId) (pairs : List (String × Value)) :
    ∀ s : Store, s.update e pairs = s.mapBindings e fun bs => bs.putAll pairs := by
  induction pairs with
  | nil =>
    intro s
    exact (mapBindings_id s e).symm
  | cons p pairs ih =>
    intro s
    show (s.define e p.1 p.2).update e pairs = _
    rw [ih, define, mapBindings_mapBindings]
    rfl

/-- Pairs define what the bindings that they make define. -/
theorem update_putAll (s : Store) (e : FrameId) (pairs : List (String × Value)) :
    s.update e (Bindings.putAll [] pairs) = s.update e pairs := by
  have hputAll : ∀ bs : Bindings, bs.putAll (Bindings.putAll [] pairs) = bs.putAll pairs :=
    fun bs => @Bindings.putAll_putAll bs [] pairs List.nodup_nil
  simp only [update_eq_mapBindings, hputAll]

theorem get?_update (pairs : List (String × Value)) (he : e < s.frames.size) (y : String) :
    ((s.update e pairs).bindings e).get? y =
      ((Bindings.putAll [] pairs).get? y).or ((s.bindings e).get? y) := by
  have hbindings : (s.update e pairs).bindings e = (s.bindings e).putAll pairs := by
    have hself := Array.getElem?_eq_getElem he
    simp only [update_eq_mapBindings, bindings, mapBindings, Array.getElem?_modify, if_true, hself,
      Option.map_some]
  rw [hbindings, Bindings.get?_putAll]

theorem lookup_update_uncovered (pairs : List (String × Value)) (he : e < s.frames.size)
    (hv : (Bindings.putAll [] pairs).get? y = some v) (hpath : s.Uncovered (s.chain h) e y) :
    (s.update e pairs).lookup h y = .ok v := by
  refine (changedAt_update e pairs s).lookup_uncovered hpath ?_
  rw [get?_update pairs he, hv]
  rfl

theorem lookup_update_otherwise (pairs : List (String × Value)) (he : e < s.frames.size)
    (hother : (Bindings.putAll [] pairs).get? y = none ∨ ¬ s.Uncovered (s.chain h) e y) :
    (s.update e pairs).lookup h y = s.lookup h y := by
  have hst := changedAt_update e pairs s
  rcases hother with hnone | hpath
  · refine hst.lookup_of_get?_eq h ?_
    rw [get?_update pairs he, hnone]
    rfl
  · exact hst.lookup_covered hpath

end

/-! ## All three -/

/-- What is seen after a name has been defined in a frame, assigned to from it,
or several names have been defined in it: in each case it is said which frames
see the new value of which name, and all others see what they saw before.  An
assignment fails exactly if lookup does, and then changes nothing; no assignment
changes which frames bind which names. -/
theorem bindings_seen {s : Store} (hs : s.Acyclic) {e : FrameId} (he : e < s.frames.size) :
    (∀ h, h < s.frames.size → ∃ path, s.Walk h path) ∧
    (∀ x v h path y, s.Walk h path →
      (y = x ∧ s.Uncovered path e x → (s.define e x v).lookup h y = .ok v) ∧
      (¬ (y = x ∧ s.Uncovered path e x) → (s.define e x v).lookup h y = s.lookup h y)) ∧
    (∀ x v,
      (∀ f, s.lookup e x = .error f → f = .unboundRead x ∧
        Run.attempt (fun s => s.set e x v) s = (.error (.unboundWrite x), s)) ∧
      (∀ w, s.lookup e x = .ok w → ∃ f t, s.find? e x = some f ∧
        Run.attempt (fun s => s.set e x v) s = (.ok (), t) ∧
        (∀ h y, t.lookup h y =
          if y = x ∧ s.find? h x = some f then .ok v else s.lookup h y) ∧
        ∀ g z, t.owns g z = s.owns g z)) ∧
    (∀ pairs : List (String × Value),
      s.update e pairs = pairs.foldl (fun s p => s.define e p.1 p.2) s ∧
      s.update e (Bindings.putAll [] pairs) = s.update e pairs ∧
      ∀ h path y, s.Walk h path →
        (∀ v, (Bindings.putAll [] pairs).get? y = some v → s.Uncovered path e y →
          (s.update e pairs).lookup h y = .ok v) ∧
        ((Bindings.putAll [] pairs).get? y = none ∨ ¬ s.Uncovered path e y →
          (s.update e pairs).lookup h y = s.lookup h y)) := by
  refine ⟨fun h hh => ⟨_, hs.walk_chain hh⟩, ?_, ?_, ?_⟩
  · intro x v h path y hpath
    cases hs.eq_chain hpath
    refine ⟨?_, lookup_define_otherwise he v⟩
    rintro ⟨rfl, huncovered⟩
    exact lookup_define_uncovered he v huncovered
  · intro x v
    cases hfind : s.find? e x with
    | none =>
      obtain ⟨hlookup, hset⟩ := unbound_of_find? v hfind
      refine ⟨fun f hf => ?_, fun w hw => ?_⟩
      · cases hlookup.symm.trans hf
        exact ⟨rfl, Run.attempt_error hset⟩
      · cases hlookup.symm.trans hw
    | some f =>
      obtain ⟨w, hlookup⟩ := lookup_of_find? hfind
      refine ⟨fun f hf => ?_, fun _ _ => ?_⟩
      · cases hlookup.symm.trans hf
      · have hset : s.set e x v = .ok (s.define f x v) := by
          unfold set
          rw [hfind]
        refine ⟨f, s.define f x v, rfl, Run.attempt_ok hset, ?_, ?_⟩
        · exact lookup_set v hfind
        · exact owns_define_of_owns v (owns_of_find? hfind)
  · intro pairs
    refine ⟨rfl, update_putAll s e pairs, fun h path y hpath => ?_⟩
    cases hs.eq_chain hpath
    exact ⟨fun v => lookup_update_uncovered pairs he, lookup_update_otherwise pairs he⟩

/-- A global frame that binds `x`, an empty frame inside it, one that binds `x`
again inside that, and another empty frame inside the global one. -/
def nestedScopes : Store where
  frames := #[⟨none, [("x", .number (.int 1))]⟩, ⟨some 0, []⟩,
    ⟨some 1, [("x", .number (.int 2))]⟩, ⟨some 0, []⟩]
  fresh := 0
  printed := #[]

/-- What the frame in the middle defines is seen by itself, but neither behind
the binding inside it nor beside it; what is set from it is seen beside it. -/
theorem bindings_seen_nestedScopes :
    (nestedScopes.define 1 "x" (.bool true)).lookup 1 "x" = .ok (.bool true) ∧
    (nestedScopes.define 1 "x" (.bool true)).lookup 2 "x" = .ok (.number (.int 2)) ∧
    (nestedScopes.define 1 "x" (.bool true)).lookup 3 "x" = .ok (.number (.int 1)) ∧
    ∃ t, Run.attempt (fun s => s.set 1 "x" (.bool true)) nestedScopes = (.ok (), t) ∧
      t.lookup 3 "x" = .ok (.bool true) := by
  have hs : nestedScopes.Acyclic := by
    intro f o ho
    rcases f with _ | _ | _ | _ | f
    · cases ho
    · cases ho
      decide
    · cases ho
      decide
    · cases ho
      decide
    · simp [outer?, nestedScopes] at ho
  obtain ⟨-, hdefine, hset, -⟩ := bindings_seen hs (show 1 < nestedScopes.frames.size by decide)
  have hglobal : nestedScopes.Walk 0 [0] := .last (by decide) rfl
  have hmiddle : nestedScopes.Walk 1 [1, 0] := .link rfl hglobal
  refine ⟨?_, ?_, ?_, ?_⟩
  · have hnearest : ∀ f ∈ ([] : List FrameId), nestedScopes.owns f "x" = false := by
      intro f hf
      exact absurd hf List.not_mem_nil
    exact (hdefine "x" (.bool true) 1 _ "x" hmiddle).1 ⟨rfl, [], [0], rfl, hnearest⟩
  · refine (hdefine "x" (.bool true) 2 _ "x" (.link rfl hmiddle)).2 ?_
    rintro ⟨-, nearer, farther, hpath, hnearer⟩
    rcases nearer with _ | ⟨f, nearer⟩
    · cases hpath
    · obtain ⟨rfl, -⟩ := List.cons_eq_cons.mp hpath
      exact absurd (hnearer 2 List.mem_cons_self) (by decide)
  · refine (hdefine "x" (.bool true) 3 _ "x" (.link rfl hglobal)).2 ?_
    rintro ⟨-, nearer, farther, hpath, -⟩
    have hmem : (1 : FrameId) ∈ [3, 0] := hpath ▸ List.mem_append_right nearer List.mem_cons_self
    exact absurd hmem (by decide)
  · obtain ⟨f, t, hf, ht, hseen, -⟩ := (hset "x" (.bool true)).2 (.number (.int 1)) rfl
    cases hf
    refine ⟨t, ht, ?_⟩
    rw [hseen]
    rfl

end Store

end EggLang
