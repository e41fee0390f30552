import ConsLisp.Eval.Monad

/-!
# How an environment grows

A run changes an environment in two ways only: it adds definitions under names that were free, and
it appends to the output.  `Frame.Adds` is the first of these for one frame, with the definitions
in the order in which they were made, and `Environment.Grown` is both together, the frames above
the global one being as they were.  Growth composes (`Environment.Grown.trans`), every primitive
of `EvalM` is an instance of it, and `Environment.Grown.leave` says why the body of a procedure
is no exception: what was pushed is what is popped.
-/

namespace ConsLisp

/-! ## Frames -/

namespace Frame

variable {F : Type} [Frame F]

/-- `g` is `f` with more bindings, added one by one under names that were free. -/
def Adds (f : F) : List (String × Cell) → F → Prop
  | [], g => g = f
  | (name, value) :: news, g => ∃ m, insert? f name value = some m ∧ Adds m news g

theorem Adds.append {f m g : F} {news more : List (String × Cell)} (h : Adds f news m)
    (h' : Adds m more g) : Adds f (news ++ more) g := by
  induction news generalizing f with
  | nil =>
    obtain rfl := h
    exact h'
  | cons b news ih =>
    obtain ⟨m', hm', h⟩ := h
    exact ⟨m', hm', ih h⟩

section Map

variable {G : Type} [Frame G] {map : F → G}

/-- A map between frames that goes along with an insertion, whether it is refused or not. -/
theorem map_insertNew {f : F} {name : String} {value : Cell}
    (h : (insert? f name value).map map = insert? (map f) name value) :
    map (insertNew f name value).2 = (insertNew (map f) name value).2 := by
  unfold insertNew
  rw [← h]
  cases insert? f name value <;> rfl

theorem map_insertAll {bindings : List (String × Cell)}
    (h : ∀ b ∈ bindings, ∀ f : F, (insert? f b.1 b.2).map map = insert? (map f) b.1 b.2) (f : F) :
    map (insertAll f bindings).2 = (insertAll (map f) bindings).2 := by
  induction bindings generalizing f with
  | nil => rfl
  | cons b bindings ih =>
    obtain ⟨name, value⟩ := b
    show map (insertAll (insertNew f name value).2 bindings).2 =
      (insertAll (insertNew (map f) name value).2 bindings).2
    rw [ih (fun c hc => h c (List.mem_cons_of_mem _ hc)),
      map_insertNew (h (name, value) List.mem_cons_self f)]

end Map

variable [LawfulFrame F]

theorem find?_of_insert?_eq_some {f g : F} {name : String} {value : Cell}
    (h : insert? f name value = some g) : find? f name = none := by
  have hfree : ¬ (find? f name).isSome := by
    rw [← LawfulFrame.insert?_eq_none_iff f name value, h]
    exact Option.some_ne_none g
  exact Option.not_isSome_iff_eq_none.1 hfree

theorem exists_insert? {f : F} {name : String} (value : Cell) (h : find? f name = none) :
    ∃ g, insert? f name value = some g := by
  rw [← Option.isSome_iff_exists, Option.isSome_iff_ne_none, Ne, LawfulFrame.insert?_eq_none_iff, h]
  exact Bool.false_ne_true

theorem find?_insert? {f g : F} {name : String} {value : Cell} (h : insert? f name value = some g)
    (n : String) : find? g n = (find? f n).or (if n == name then some value else none) := by
  rw [LawfulFrame.find?_of_insert? f g name value h n]
  by_cases hn : n = name
  · rw [if_pos hn.symm, hn, find?_of_insert?_eq_some h]
    simp
  · rw [if_neg (Ne.symm hn)]
    simp [hn]

theorem nodup_toList (f : F) : (toList f).Nodup :=
  List.Pairwise.of_map Prod.fst (fun _ _ hne heq => hne (congrArg Prod.fst heq))
    (LawfulFrame.nodup_names f)

/-- Frames in which the same can be found hold the same bindings, whatever they are made of. -/
theorem toList_perm {G : Type} [Frame G] [LawfulFrame G] {f : F} {g : G}
    (h : ∀ name, find? f name = find? g name) : (toList f).Perm (toList g) := by
  refine (List.perm_ext_iff_of_nodup (nodup_toList f) (nodup_toList g)).2 ?_
  rintro ⟨name, value⟩
  rw [LawfulFrame.mem_toList_iff, LawfulFrame.mem_toList_iff, h name]

theorem size_empty : size (empty : F) = 0 := by
  rw [LawfulFrame.size_eq_length, List.length_eq_zero_iff, List.eq_nil_iff_forall_not_mem]
  rintro ⟨name, value⟩ hmem
  rw [LawfulFrame.mem_toList_iff, LawfulFrame.find?_empty] at hmem
  cases hmem

theorem size_of_insert? {f g : F} {name : String} {value : Cell}
    (h : insert? f name value = some g) : size g = size f + 1 := by
  have hfree := find?_of_insert?_eq_some h
  have hnew : (name, value) ∉ toList f := by
    rw [LawfulFrame.mem_toList_iff, hfree]
    exact fun h => nomatch h
  have hperm : (toList g).Perm ((name, value) :: toList f) := by
    refine (List.perm_ext_iff_of_nodup (nodup_toList g)
      (List.nodup_cons.2 ⟨hnew, nodup_toList f⟩)).2 ?_
    rintro ⟨n, v⟩
    rw [List.mem_cons, LawfulFrame.mem_toList_iff, LawfulFrame.mem_toList_iff,
      LawfulFrame.find?_of_insert? f g name value h n]
    by_cases hn : name = n
    · subst hn
      rw [if_pos rfl, hfree]
      simp [eq_comm]
    · rw [if_neg hn]
      simp [Ne.symm hn]
  rw [LawfulFrame.size_eq_length, LawfulFrame.size_eq_length, hperm.length_eq, List.length_cons]

theorem size_insertNew_le (f : F) (name : String) (value : Cell) :
    size (insertNew f name value).2 ≤ size f + 1 := by
  unfold insertNew
  split
  · next g hg => exact Nat.le_of_eq (size_of_insert? hg)
  · exact Nat.le_succ _

/-- Of several bindings for one name the first counts, and those of the frame count before. -/
theorem find?_insertAll (f : F) (bindings : List (String × Cell)) (n : String) :
    find? (insertAll f bindings).2 n = (find? f n).or (bindings.lookup n) := by
  induction bindings generalizing f with
  | nil => simp [insertAll]
  | cons b bindings ih =>
    obtain ⟨name, value⟩ := b
    have hnew : find? (insertNew f name value).2 n =
        (find? f n).or (if n == name then some value else none) := by
      unfold insertNew
      split
      · next g hg => exact find?_insert? hg n
      · next hnone =>
        have hbound := (LawfulFrame.insert?_eq_none_iff f name value).1 hnone
        by_cases hn : n = name
        · subst hn
          obtain ⟨v, hv⟩ := Option.isSome_iff_exists.1 hbound
          simp [hv]
        · simp [hn]
    have hcons : find? (insertAll f ((name, value) :: bindings)).2 n =
        find? (insertAll (insertNew f name value).2 bindings).2 n := rfl
    rw [hcons, ih, hnew, Option.or_assoc, List.lookup_cons]
    cases n == name <;> rfl

theorem find?_ofList (bindings : List (String × Cell)) (n : String) :
    find? (ofList bindings : F) n = bindings.lookup n := by
  rw [ofList, find?_insertAll, LawfulFrame.find?_empty, Option.none_or]

/-- How many bindings a frame has does not depend on its container. -/
theorem size_ofList (F G : Type) [Frame F] [LawfulFrame F] [Frame G] [LawfulFrame G]
    (bindings : List (String × Cell)) :
    size (ofList bindings : F) = size (ofList bindings : G) := by
  have hfind (name : String) :
      find? (ofList bindings : F) name = find? (ofList bindings : G) name := by
    rw [find?_ofList, find?_ofList]
  rw [LawfulFrame.size_eq_length, LawfulFrame.size_eq_length, (toList_perm hfind).length_eq]

namespace Adds

theorem find?_eq {f g : F} {news : List (String × Cell)} (h : Adds f news g) (n : String) :
    find? g n = (find? f n).or (news.lookup n) := by
  induction news generalizing f with
  | nil =>
    obtain rfl := h
    simp
  | cons b news ih =>
    obtain ⟨m, hm, h⟩ := h
    rw [ih h, find?_insert? hm, Option.or_assoc, List.lookup_cons]
    cases n == b.1 <;> rfl

/-- What was bound keeps its value. -/
theorem find?_of_some {f g : F} {news : List (String × Cell)} (h : Adds f news g) {n : String}
    {v : Cell} (hv : find? f n = some v) : find? g n = some v := by
  rw [h.find?_eq n, hv, Option.some_or]

/-- What is bound was bound before or is among the additions. -/
theorem find?_cases {f g : F} {news : List (String × Cell)} (h : Adds f news g) {n : String}
    {v : Cell} (hv : find? g n = some v) :
    find? f n = some v ∨ (find? f n = none ∧ (n, v) ∈ news) := by
  rw [h.find?_eq n] at hv
  cases hf : find? f n with
  | some w =>
    rw [hf, Option.some_or] at hv
    exact .inl hv
  | none =>
    rw [hf, Option.none_or] at hv
    obtain ⟨l₁, l₂, hnews, -⟩ := List.lookup_eq_some_iff.1 hv
    exact .inr ⟨rfl, by simp [hnews]⟩

theorem find?_of_mem {f g : F} {news : List (String × Cell)} (h : Adds f news g) {n : String}
    {v : Cell} (hmem : (n, v) ∈ news) : find? g n = some v := by
  induction news generalizing f with
  | nil => cases hmem
  | cons b news ih =>
    obtain ⟨m, hm, h⟩ := h
    rcases List.mem_cons.1 hmem with heq | hmem
    · obtain rfl := heq
      refine h.find?_of_some ?_
      rw [LawfulFrame.find?_of_insert? f m n v hm, if_pos rfl]
    · exact ih h hmem

/-- What is added was not bound. -/
theorem free {f g : F} {news : List (String × Cell)} (h : Adds f news g) {n : String}
    (hmem : n ∈ news.map Prod.fst) : find? f n = none := by
  induction news generalizing f with
  | nil => cases hmem
  | cons b news ih =>
    obtain ⟨m, hm, h⟩ := h
    rcases List.mem_cons.1 hmem with rfl | hmem
    · exact find?_of_insert?_eq_some hm
    · have hfree := ih h hmem
      rw [find?_insert? hm, Option.or_eq_none_iff] at hfree
      exact hfree.1

/-- No name is added twice. -/
theorem nodup {f g : F} {news : List (String × Cell)} (h : Adds f news g) :
    (news.map Prod.fst).Nodup := by
  induction news generalizing f with
  | nil => exact List.nodup_nil
  | cons b news ih =>
    obtain ⟨m, hm, h⟩ := h
    refine List.nodup_cons.2 ⟨fun hmem => ?_, ih h⟩
    have hfree := h.free hmem
    rw [LawfulFrame.find?_of_insert? f m b.1 b.2 hm, if_pos rfl] at hfree
    cases hfree

theorem size_eq {f g : F} {news : List (String × Cell)} (h : Adds f news g) :
    size g = size f + news.length := by
  induction news generalizing f with
  | nil =>
    obtain rfl := h
    rfl
  | cons b news ih =>
    obtain ⟨m, hm, h⟩ := h
    rw [ih h, size_of_insert? hm, List.length_cons]
    omega

/-- In a frame that was empty there is what was added and nothing else. -/
theorem find?_eq_some_iff {g : F} {news : List (String × Cell)} (h : Adds empty news g)
    {n : String} {v : Cell} : find? g n = some v ↔ (n, v) ∈ news := by
  refine ⟨fun hv => ?_, h.find?_of_mem⟩
  obtain hempty | ⟨-, hmem⟩ := h.find?_cases hv
  · rw [LawfulFrame.find?_empty] at hempty
    cases hempty
  · exact hmem

end Adds

/-- Bindings for distinct free names are all accepted, and nothing else is added. -/
theorem insertAll_of_nodup {f : F} {bindings : List (String × Cell)}
    (hnodup : (bindings.map Prod.fst).Nodup) (hfree : ∀ b ∈ bindings, find? f b.1 = none) :
    (insertAll f bindings).1 = List.replicate bindings.length true ∧
      Adds f bindings (insertAll f bindings).2 := by
  induction bindings generalizing f with
  | nil => exact ⟨rfl, rfl⟩
  | cons b bindings ih =>
    obtain ⟨name, value⟩ := b
    obtain ⟨hname, hnodup⟩ := List.nodup_cons.1 hnodup
    obtain ⟨g, hg⟩ := exists_insert? value (hfree _ List.mem_cons_self)
    have hcons : insertAll f ((name, value) :: bindings) =
        (true :: (insertAll g bindings).1, (insertAll g bindings).2) := by
      rw [insertAll, insertNew, hg]
    have hrest (c : String × Cell) (hc : c ∈ bindings) : find? g c.1 = none := by
      have hne : name ≠ c.1 := by
        rintro rfl
        exact hname (List.mem_map.2 ⟨c, hc, rfl⟩)
      rw [LawfulFrame.find?_of_insert? f g name value hg, if_neg hne]
      exact hfree c (List.mem_cons_of_mem _ hc)
    obtain ⟨hadded, hadds⟩ := ih hnodup hrest
    rw [hcons]
    exact ⟨congrArg (true :: ·) hadded, g, hg, hadds⟩

end Frame

/-! ## Sinks -/

/-- The sink after it has taken some bytes, with the room that is left then. -/
def Sink.taking (sink : Sink) (room : Option Nat) (bytes : ByteArray) : Sink :=
  { sink with room, written := sink.written ++ bytes }

/-- How much of a text a sink takes depends only on the room it has. -/
theorem Sink.write_eq (room : Option Nat) (text : String) : ∃ (taken : Bool) (bytes : ByteArray)
    (room' : Option Nat), ∀ sink : Sink, sink.room = room →
      sink.write text = (taken, sink.taking room' bytes) := by
  cases room with
  | none =>
    refine ⟨true, text.toUTF8, none, ?_⟩
    rintro ⟨_, refusal, written⟩ rfl
    rfl
  | some room =>
    by_cases h : text.toUTF8.size ≤ room
    · refine ⟨true, text.toUTF8, some (room - text.toUTF8.size), ?_⟩
      rintro ⟨_, refusal, written⟩ rfl
      exact if_pos h
    · refine ⟨false, text.toUTF8.extract 0 room, some 0, ?_⟩
      rintro ⟨_, refusal, written⟩ rfl
      exact if_neg h

/-! ## Environments -/

theorem checkBindable_of_not_isReserved {name : String} (h : Operator.isReserved name = false) :
    checkBindable name = .ok () := by
  simp [checkBindable, h]

namespace Environment

variable {F : Type} [Frame F]

/-- The environment in which the body of a procedure begins. -/
def enter (env : Environment F) (bindings : List (String × Cell)) : Environment F :=
  let frame : F := Frame.ofList bindings
  (env.record (.applyingProcedure (Frame.size frame) env.depth)).push frame

theorem inFrame_apply {A : Type} (bindings : List (String × Cell)) (body : EvalM F A)
    (env : Environment F) :
    EvalM.inFrame bindings body env =
      match body (env.enter bindings) with
      | .value a last => .value a last.pop
      | .failure e last => .failure e last.pop
      | .exhausted => .exhausted := rfl

@[simp] theorem enter_locals (env : Environment F) (bindings : List (String × Cell)) :
    (env.enter bindings).locals = Frame.ofList bindings :: env.locals := rfl

/-- The environment with other frames in the place of its own. -/
def mapFrames {G : Type} (f : F → G) (env : Environment F) : Environment G where
  globals := f env.globals
  locals := env.locals.map f
  output := env.output
  events := env.events

section MapFrames

variable {G : Type} (f : F → G) (env : Environment F)

omit [Frame F] in
theorem mapFrames_depth : (env.mapFrames f).depth = env.depth := by
  simp [depth, mapFrames]

omit [Frame F] in
theorem mapFrames_push (frame : F) :
    (env.push frame).mapFrames f = (env.mapFrames f).push (f frame) := by
  simp [push, record, mapFrames, depth]

omit [Frame F] in
theorem mapFrames_pop : env.pop.mapFrames f = (env.mapFrames f).pop := by
  simp [pop, record, mapFrames, depth]

theorem mapFrames_lookup? [Frame G]
    (hf : ∀ frame name, Frame.find? (f frame) name = Frame.find? frame name) (name : String) :
    (env.mapFrames f).lookup? name = env.lookup? name := by
  rw [lookup?, mapFrames, List.findSome?_map, hf]
  simp only [Function.comp_def, hf]
  rfl

end MapFrames

/-- The environment after its sink has taken some bytes. -/
def printed (env : Environment F) (room : Option Nat) (bytes : ByteArray) : Environment F :=
  { env with output := env.output.taking room bytes }

/-- `env'` is `env` after the definitions `news` were made, in this order, and `bytes` were
printed.  The frames above the global one are the same, and the sink would say the same. -/
structure Grown (env : Environment F) (news : List (String × Cell)) (bytes : ByteArray)
    (env' : Environment F) : Prop where
  locals_eq : env'.locals = env.locals
  globals : Frame.Adds env.globals news env'.globals
  bindable : ∀ b ∈ news, Operator.isReserved b.1 = false
  written_eq : env'.output.written = env.output.written ++ bytes
  refusal_eq : env'.output.refusal = env.output.refusal

/-- Growth by some definitions and some output. -/
def Grows (env env' : Environment F) : Prop :=
  ∃ news bytes, Grown env news bytes env'

namespace Grown

theorem refl (env : Environment F) : Grown env [] .empty env :=
  ⟨rfl, rfl, by simp, ByteArray.append_empty.symm, rfl⟩

theorem trans {env env' env'' : Environment F} {news news' : List (String × Cell)}
    {bytes bytes' : ByteArray} (h : Grown env news bytes env')
    (h' : Grown env' news' bytes' env'') : Grown env (news ++ news') (bytes ++ bytes') env'' where
  locals_eq := h'.locals_eq.trans h.locals_eq
  globals := h.globals.append h'.globals
  bindable b hb := (List.mem_append.1 hb).elim (h.bindable b) (h'.bindable b)
  written_eq := by rw [h'.written_eq, h.written_eq, ByteArray.append_assoc]
  refusal_eq := h'.refusal_eq.trans h.refusal_eq

theorem depth_eq {env env' : Environment F} {news : List (String × Cell)} {bytes : ByteArray}
    (h : Grown env news bytes env') : env'.depth = env.depth := by
  rw [depth, depth, h.locals_eq]

/-- What happens inside a frame is growth of the environment outside of it. -/
theorem leave {env last : Environment F} {news : List (String × Cell)} {bytes : ByteArray}
    {bindings : List (String × Cell)} (h : Grown (env.enter bindings) news bytes last) :
    Grown env news bytes last.pop where
  locals_eq := by
    show last.locals.tail = env.locals
    rw [h.locals_eq]
    rfl
  globals := h.globals
  bindable := h.bindable
  written_eq := h.written_eq
  refusal_eq := h.refusal_eq

end Grown

namespace Grows

theorem refl (env : Environment F) : Grows env env :=
  ⟨_, _, .refl env⟩

theorem trans {env env' env'' : Environment F} (h : Grows env env') (h' : Grows env' env'') :
    Grows env env'' := by
  obtain ⟨_, _, h⟩ := h
  obtain ⟨_, _, h'⟩ := h'
  exact ⟨_, _, h.trans h'⟩

theorem locals_eq {env env' : Environment F} (h : Grows env env') : env'.locals = env.locals := by
  obtain ⟨_, _, h⟩ := h
  exact h.locals_eq

end Grows

theorem grown_printed (env : Environment F) (room : Option Nat) (bytes : ByteArray) :
    Grown env [] bytes (env.printed room bytes) :=
  ⟨rfl, rfl, by simp, rfl, rfl⟩

omit [Frame F] in
theorem write_eq {room room' : Option Nat} {text : String} {taken : Bool} {bytes : ByteArray}
    (h : ∀ sink : Sink, sink.room = room → sink.write text = (taken, sink.taking room' bytes))
    {env : Environment F} (hroom : env.output.room = room) :
    env.write text = (taken, env.printed room' bytes) := by
  rw [write, h env.output hroom]
  rfl

theorem grown_record (env : Environment F) (event : Event) :
    Grown env [] .empty (env.record event) :=
  ⟨rfl, rfl, by simp, ByteArray.append_empty.symm, rfl⟩

theorem define?_of_isReserved (env : Environment F) {name : String} (value : Cell)
    (hname : Operator.isReserved name = true) :
    env.define? name value = .error (.reservedName name) := by
  have hcheck : checkBindable name = .error (.reservedName name) := by
    simp [checkBindable, hname]
  unfold define?
  rw [hcheck]
  rfl

/-- What a definition does to the environment when it is not refused, and why it is. -/
theorem define?_cases (env : Environment F) {name : String} (value : Cell)
    (hname : Operator.isReserved name = false) :
    (∃ globals, Frame.insert? env.globals name value = some globals ∧
      env.define? name value =
        .ok ({ env with globals }.record (.definedGlobal name value.kind))) ∨
    (Frame.insert? env.globals name value = none ∧
      env.define? name value = .error (.duplicateDefinition name)) := by
  unfold define?
  rw [checkBindable_of_not_isReserved hname]
  cases Frame.insert? env.globals name value with
  | none => exact .inr ⟨rfl, rfl⟩
  | some globals => exact .inl ⟨globals, rfl, rfl⟩

theorem grown_define (env : Environment F) {name : String} {value : Cell}
    (hname : Operator.isReserved name = false) {globals : F}
    (h : Frame.insert? env.globals name value = some globals) (event : Event) :
    Grown env [(name, value)] .empty ({ env with globals }.record event) :=
  ⟨rfl, ⟨globals, h, rfl⟩, by simpa using hname, ByteArray.append_empty.symm, rfl⟩

end Environment

/-! ## Outcomes -/

namespace Outcome

variable {S T A : Type}

/-- The state that a run leaves behind, if it ends. -/
def state? : Outcome S A → Option S
  | .value _ s => some s
  | .failure _ s => some s
  | .exhausted => none

/-- The same outcome in another state. -/
def mapState (f : S → T) : Outcome S A → Outcome T A
  | .value a s => .value a (f s)
  | .failure e s => .failure e (f s)
  | .exhausted => .exhausted

/-- A frame is taken off however its body has ended. -/
theorem inFrame_eq_mapState {F : Type} [Frame F] (bindings : List (String × Cell))
    (body : EvalM F A) (env : Environment F) :
    EvalM.inFrame bindings body env =
      (body (env.enter bindings)).mapState Environment.pop := by
  rw [Environment.inFrame_apply]
  cases body (env.enter bindings) <;> rfl

/-- What holds at the end of a run that ends. -/
def Ends (onValue : A → S → Prop) (onFailure : EvalError → S → Prop) : Outcome S A → Prop
  | .value a s => onValue a s
  | .failure e s => onFailure e s
  | .exhausted => True

theorem Ends.mono {onValue onValue' : A → S → Prop} {onFailure onFailure' : EvalError → S → Prop}
    {o : Outcome S A} (h : o.Ends onValue onFailure) (hvalue : ∀ a s, onValue a s → onValue' a s)
    (hfailure : ∀ e s, onFailure e s → onFailure' e s) : o.Ends onValue' onFailure' := by
  cases o with
  | value a s => exact hvalue a s h
  | failure e s => exact hfailure e s h
  | exhausted => trivial

/-- Two runs that end in the same way, with the same value or error, in related states. -/
inductive Same (Q : A → Prop) (related : S → T → Prop) : Outcome S A → Outcome T A → Prop
  | value {a s t} : Q a → related s t → Same Q related (.value a s) (.value a t)
  | failure {e s t} : related s t → Same Q related (.failure e s) (.failure e t)
  | exhausted : Same Q related .exhausted .exhausted

theorem Same.mono {Q : A → Prop} {related related' : S → T → Prop} {o : Outcome S A}
    {o' : Outcome T A} (h : Same Q related o o') (hsub : ∀ s t, related s t → related' s t) :
    Same Q related' o o' := by
  cases h with
  | value ha hst => exact .value ha (hsub _ _ hst)
  | failure hst => exact .failure (hsub _ _ hst)
  | exhausted => exact .exhausted

theorem Same.imp {Q Q' : A → Prop} {related : S → T → Prop} {o : Outcome S A} {o' : Outcome T A}
    (h : Same Q related o o') (hQ : ∀ a, Q a → Q' a) : Same Q' related o o' := by
  cases h with
  | value ha hst => exact .value (hQ _ ha) hst
  | failure hst => exact .failure hst
  | exhausted => exact .exhausted

theorem Same.mapState_eq {Q : A → Prop} {f : T → S} {o : Outcome S A} {o' : Outcome T A}
    (h : Same Q (fun s t => f t = s) o o') : o'.mapState f = o := by
  cases h with
  | value _ hst => exact congrArg (Outcome.value _) hst
  | failure hst => exact congrArg (Outcome.failure _) hst
  | exhausted => rfl

/-- Runs that have ended alike may be continued alike. -/
theorem Same.bind {F G B : Type} {Q : A → Prop} {Q' : B → Prop} {x : EvalM F A} {y : EvalM G A}
    {f : A → EvalM F B} {g : A → EvalM G B} {env : Environment F} {env' : Environment G}
    {related related' : Environment F → Environment G → Prop} (h : Same Q related (x env) (y env'))
    (hfailure : ∀ s t, related s t → related' s t)
    (hvalue : ∀ a s t, Q a → related s t → Same Q' related' (f a s) (g a t)) :
    Same Q' related' ((x >>= f) env) ((y >>= g) env') := by
  rw [EvalM.bind_apply, EvalM.bind_apply]
  generalize x env = o, y env' = o' at h
  cases h with
  | value ha hst => exact hvalue _ _ _ ha hst
  | failure hst => exact .failure (hfailure _ _ hst)
  | exhausted => exact .exhausted

/-- Runs that have ended alike in a frame have ended alike outside of it. -/
theorem Same.inFrame {F G : Type} [Frame F] [Frame G] {Q : A → Prop} {x : EvalM F A}
    {y : EvalM G A} {bindings : List (String × Cell)} {env : Environment F} {env' : Environment G}
    {related related' : Environment F → Environment G → Prop}
    (h : Same Q related (x (env.enter bindings)) (y (env'.enter bindings)))
    (hpop : ∀ s t, related s t → related' s.pop t.pop) :
    Same Q related' (EvalM.inFrame bindings x env) (EvalM.inFrame bindings y env') := by
  rw [Environment.inFrame_apply, Environment.inFrame_apply]
  generalize x _ = o, y _ = o' at h
  cases h with
  | value ha hst => exact .value ha (hpop _ _ hst)
  | failure hst => exact .failure (hpop _ _ hst)
  | exhausted => exact .exhausted

end Outcome

end ConsLisp
