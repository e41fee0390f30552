import ConsLisp.Proofs.Watch

/-!
# Guarded frames

A guarded frame is one whose type says that it binds only values of a class `P`.  It refuses any
other value.  An environment of guarded frames is at every moment of a run an environment of plain
frames in which all values are of the class (`Environment.forget`), and a run that is the same with
guarded frames as with plain ones has never tried to bind anything else: a refused binding is
missing from the number of bindings that is noted when its frame is pushed
(`Guarded.of_size_ofList_eq`).

`StaysGuarded.closed` says that this is so for every run on code of a hereditary class.
-/

namespace ConsLisp

/-- A frame that binds only values of a class. -/
structure Guarded (P : Cell → Prop) (F : Type) [Frame F] where
  frame : F
  bound : ∀ name value, Frame.find? frame name = some value → P value

variable {F : Type} [Frame F] {P : Cell → Prop}

namespace Guarded

variable [LawfulFrame F]

theorem of_insert? {f g : F} (hf : ∀ name value, Frame.find? f name = some value → P value)
    {name : String} {value : Cell} (hvalue : P value) (h : Frame.insert? f name value = some g) :
    ∀ n v, Frame.find? g n = some v → P v := by
  intro n v hv
  rw [LawfulFrame.find?_of_insert? f g name value h n] at hv
  split at hv
  · rwa [← Option.some.inj hv]
  · exact hf n v hv

theorem of_erase {f : F} (hf : ∀ name value, Frame.find? f name = some value → P value)
    (name : String) : ∀ n v, Frame.find? (Frame.erase f name) n = some v → P v := by
  intro n v hv
  rw [LawfulFrame.find?_erase] at hv
  split at hv
  · cases hv
  · exact hf n v hv

open Classical in
noncomputable instance : Frame (Guarded P F) where
  empty := ⟨Frame.empty, by simp [LawfulFrame.find?_empty]⟩
  find? f := Frame.find? f.frame
  insert? f name value :=
    if hvalue : P value then
      (Frame.insert? f.frame name value).pmap Guarded.mk fun _ hg => of_insert? f.bound hvalue hg
    else none
  erase f name := ⟨Frame.erase f.frame name, of_erase f.bound name⟩
  size f := Frame.size f.frame
  toList f := Frame.toList f.frame

/-- A value of the class is refused only where the name is taken. -/
theorem frame_insert? (f : Guarded P F) (name : String) {value : Cell} (h : P value) :
    (Frame.insert? f name value).map frame = Frame.insert? f.frame name value := by
  have hinsert : Frame.insert? f name value = (Frame.insert? f.frame name value).pmap Guarded.mk
      fun _ hg => of_insert? f.bound h hg := dif_pos h
  rw [hinsert, Option.map_pmap, Option.pmap_eq_map, Option.map_id']

theorem frame_ofList {bindings : List (String × Cell)} (h : ∀ b ∈ bindings, P b.2) :
    (Frame.ofList bindings : Guarded P F).frame = Frame.ofList bindings :=
  Frame.map_insertAll (fun b hb f => frame_insert? f b.1 (h b hb)) Frame.empty

/-- A guarded frame gets larger with each binding that it does not refuse. -/
theorem size_insertAll_le (f : Guarded P F) (bindings : List (String × Cell)) :
    Frame.size (Frame.insertAll f bindings).2 ≤ Frame.size f + bindings.length ∧
      (Frame.size (Frame.insertAll f bindings).2 = Frame.size f + bindings.length →
        ∀ b ∈ bindings, P b.2) := by
  induction bindings generalizing f with
  | nil => exact ⟨Nat.le_refl _, by simp⟩
  | cons b bindings ih =>
    obtain ⟨name, value⟩ := b
    have hnew : Frame.size (Frame.insertNew f name value).2 ≤ Frame.size f + 1 ∧
        (Frame.size (Frame.insertNew f name value).2 = Frame.size f + 1 → P value) := by
      by_cases hvalue : P value
      · refine ⟨?_, fun _ => hvalue⟩
        have hsize : Frame.size (Frame.insertNew f name value).2 =
            Frame.size (Frame.insertNew f.frame name value).2 :=
          congrArg Frame.size (Frame.map_insertNew (frame_insert? f name hvalue))
        rw [hsize]
        exact Frame.size_insertNew_le f.frame name value
      · have hrefused : Frame.insert? f name value = none := dif_neg hvalue
        unfold Frame.insertNew
        rw [hrefused]
        exact ⟨Nat.le_succ _, fun h => absurd h (Nat.ne_of_lt (Nat.lt_succ_self _))⟩
    obtain ⟨hle, heq⟩ := ih (Frame.insertNew f name value).2
    have hcons : (Frame.insertAll f ((name, value) :: bindings)).2 =
        (Frame.insertAll (Frame.insertNew f name value).2 bindings).2 := rfl
    rw [hcons, List.length_cons]
    refine ⟨by omega, fun hsize c hc => ?_⟩
    rcases List.mem_cons.1 hc with rfl | hc
    · exact hnew.2 (by omega)
    · exact heq (by omega) c hc

/-- A binding that a frame refuses shows in its size. -/
theorem of_size_ofList_eq {bindings : List (String × Cell)}
    (hnodup : (bindings.map Prod.fst).Nodup)
    (h : Frame.size (Frame.ofList bindings : Guarded P F) =
      Frame.size (Frame.ofList bindings : F)) : ∀ b ∈ bindings, P b.2 := by
  have hplain : Frame.size (Frame.ofList bindings : F) =
      Frame.size (Frame.empty : F) + bindings.length :=
    (Frame.insertAll_of_nodup hnodup fun b _ => LawfulFrame.find?_empty b.1).2.size_eq
  exact (size_insertAll_le Frame.empty bindings).2 (h.trans hplain)

end Guarded

namespace Environment

/-- All values that an environment binds are of a class. -/
def All (P : Cell → Prop) (env : Environment F) : Prop :=
  ∀ frame ∈ env.globals :: env.locals, ∀ name value,
    Frame.find? frame name = some value → P value

namespace All

variable {env : Environment F}

theorem lookup? (h : env.All P) {name : String} {value : Cell}
    (hvalue : env.lookup? name = some value) : P value := by
  unfold Environment.lookup? at hvalue
  obtain hvalue | ⟨-, hvalue⟩ := Option.or_eq_some_iff.1 hvalue
  · obtain ⟨frame, hframe, hvalue⟩ := List.exists_of_findSome?_eq_some hvalue
    exact h frame (List.mem_cons_of_mem _ hframe) name value hvalue
  · exact h env.globals List.mem_cons_self name value hvalue

theorem pop (h : env.All P) : env.pop.All P := by
  intro frame hframe
  rcases List.mem_cons.1 hframe with rfl | hframe
  · exact h env.globals List.mem_cons_self
  · exact h frame (List.mem_cons_of_mem _ (List.mem_of_mem_tail hframe))

variable [LawfulFrame F]

theorem enter (h : env.All P) {bindings : List (String × Cell)}
    (hbindings : ∀ b ∈ bindings, P b.2) : (env.enter bindings).All P := by
  intro frame hframe
  rcases List.mem_cons.1 hframe with rfl | hframe
  · exact h env.globals List.mem_cons_self
  rcases List.mem_cons.1 hframe with rfl | hframe
  · intro name value hvalue
    rw [Frame.find?_ofList] at hvalue
    obtain ⟨before, after, rfl, -⟩ := List.lookup_eq_some_iff.1 hvalue
    exact hbindings (name, value) (by simp)
  · exact h frame (List.mem_cons_of_mem _ hframe)

theorem with_globals (h : env.All P) {name : String} {value : Cell} {globals : F}
    (hinsert : Frame.insert? env.globals name value = some globals) (hvalue : P value) :
    { env with globals }.All P := by
  intro frame hframe
  rcases List.mem_cons.1 hframe with rfl | hframe
  · exact Guarded.of_insert? (h env.globals List.mem_cons_self) hvalue hinsert
  · exact h frame (List.mem_cons_of_mem _ hframe)

end All

/-- An environment of guarded frames as one of plain frames. -/
def forget (env : Environment (Guarded P F)) : Environment F :=
  env.mapFrames Guarded.frame

theorem all_forget (env : Environment (Guarded P F)) : env.forget.All P := by
  intro frame hframe
  rcases List.mem_cons.1 hframe with rfl | hframe
  · exact env.globals.bound
  · obtain ⟨guarded, -, rfl⟩ := List.mem_map.1 hframe
    exact guarded.bound

theorem All.exists_forget {env : Environment F} (h : env.All P) :
    ∃ guarded : Environment (Guarded P F), guarded.forget = env := by
  obtain ⟨globals, locals, output, events⟩ := env
  have hlocals (frame : F) (hframe : frame ∈ locals) :=
    h frame (List.mem_cons_of_mem globals hframe)
  refine ⟨⟨⟨globals, h globals List.mem_cons_self⟩, locals.pmap Guarded.mk hlocals, output, events⟩,
    ?_⟩
  simp [forget, mapFrames, List.map_pmap]

section Lawful

variable [LawfulFrame F] (env : Environment (Guarded P F))

theorem forget_lookup? (name : String) : env.forget.lookup? name = env.lookup? name :=
  env.mapFrames_lookup? Guarded.frame (fun _ _ => rfl) name

theorem lookup?_guarded {name : String} {value : Cell} (h : env.lookup? name = some value) :
    P value :=
  env.all_forget.lookup? ((env.forget_lookup? name).trans h)

omit [LawfulFrame F] in
theorem forget_depth : env.forget.depth = env.depth :=
  env.mapFrames_depth Guarded.frame

theorem forget_enter {bindings : List (String × Cell)} (h : ∀ b ∈ bindings, P b.2) :
    (env.enter bindings).forget = env.forget.enter bindings := by
  have hframe := Guarded.frame_ofList (F := F) h
  have hsize : Frame.size (Frame.ofList bindings : Guarded P F) =
      Frame.size (Frame.ofList bindings : F) := congrArg Frame.size hframe
  simp [enter, push, record, forget, mapFrames, depth, hframe, hsize]

omit [LawfulFrame F] in
theorem forget_pop : env.pop.forget = env.forget.pop :=
  env.mapFrames_pop Guarded.frame

end Lawful

end Environment

/-- Two actions that do the same, one with plain frames and one with guarded frames. -/
def StaysGuarded (P : Cell → Prop) [LawfulFrame F] : ActionRel F (Guarded P F) := fun _ Q x y =>
  ∀ env : Environment (Guarded P F),
    Outcome.Same Q (fun last last' => last = last'.forget) (x env.forget) (y env)

namespace StaysGuarded

variable [LawfulFrame F]

theorem bind {A B : Type} {Q : A → Prop} {Q' : B → Prop} {x : EvalM F A} {y : EvalM (Guarded P F) A}
    {f : A → EvalM F B} {g : A → EvalM (Guarded P F) B} (h : StaysGuarded P Q x y)
    (hf : ∀ a, Q a → StaysGuarded P Q' (f a) (g a)) : StaysGuarded P Q' (x >>= f) (y >>= g) := by
  intro env
  refine (h env).bind (fun _ _ hlast => hlast) ?_
  rintro a _ mid ha rfl
  exact hf a ha mid

theorem sequenced : Sequenced (StaysGuarded (F := F) P) where
  pure_rel hQ _ := .value hQ rfl
  bind_rel := bind
  fail_rel _ _ := .failure rfl
  exhausted_rel _ := .exhausted

theorem lookup (name : String) :
    StaysGuarded (F := F) P P (EvalM.lookup name) (EvalM.lookup name) := by
  intro env
  unfold EvalM.lookup
  rw [env.forget_lookup?]
  cases hv : env.lookup? name with
  | none => exact .failure rfl
  | some v => exact .value (env.lookup?_guarded hv) rfl

theorem isGloballyBound (name : String) : StaysGuarded (F := F) P (fun _ => True)
    (EvalM.isGloballyBound name) (EvalM.isGloballyBound name) := by
  intro env
  refine .value trivial ?_
  rfl

theorem write (text : String) :
    StaysGuarded (F := F) P (fun _ => True) (EvalM.write text) (EvalM.write text) := by
  intro env
  unfold EvalM.write Environment.write
  rw [show env.forget.output = env.output from rfl]
  rcases env.output.write text with ⟨_ | _, output⟩
  · exact .failure rfl
  · exact .value trivial rfl

theorem define {name : String} (hname : Operator.isReserved name = false) {value : Cell}
    (hvalue : P value) : StaysGuarded (F := F) P (fun _ => True) (EvalM.define name value)
      (EvalM.define name value) := by
  intro env
  have hinsert := Guarded.frame_insert? env.globals name hvalue
  unfold EvalM.define
  obtain ⟨globals, hguarded, hdef⟩ | ⟨hguarded, hdef⟩ := env.define?_cases value hname <;>
    obtain ⟨globals', hplain, hdef'⟩ | ⟨hplain, hdef'⟩ := env.forget.define?_cases value hname <;>
    rw [hguarded, show env.globals.frame = env.forget.globals from rfl, hplain] at hinsert
  · obtain rfl := Option.some.inj hinsert
    rw [hdef, hdef']
    exact .value trivial rfl
  · cases hinsert
  · cases hinsert
  · rw [hdef, hdef']
    exact .failure rfl

theorem inFrame {A : Type} {Q : A → Prop} {x : EvalM F A} {y : EvalM (Guarded P F) A}
    {bindings : List (String × Cell)} (hbindings : ∀ b ∈ bindings, P b.2)
    (h : StaysGuarded P Q x y) :
    StaysGuarded P Q (EvalM.inFrame bindings x) (EvalM.inFrame bindings y) := by
  intro env
  have hsame := h (env.enter bindings)
  rw [env.forget_enter hbindings] at hsame
  refine hsame.inFrame ?_
  rintro _ last rfl
  exact last.forget_pop.symm

theorem closed (hP : Hereditary P) : Closed P (StaysGuarded (F := F) P) where
  toSequenced := sequenced
  note_rel expr env := by
    refine .value trivial ?_
    rw [env.forget_depth]
    rfl
  lookup_rel _ := lookup _
  write_rel := write
  defineAs_rel hname h := sequenced.defineAs_rel hP.nil (fun name _ => isGloballyBound name)
    (fun _ hname _ hvalue => define hname hvalue) hname h
  inFrame_rel hbindings h := inFrame hbindings h

end StaysGuarded

end ConsLisp
