import ConsLisp.Frame.Containers
import ConsLisp.Proofs.Growth
import ConsLisp.Proofs.Related

/-!
# Limited output

A sink with limited room makes a run fail at the moment when it would print one byte more than there
is room for, and until then it makes no difference.  `CutsOff` compares a run without a limit with
the same run under a limit: either everything that is printed fits, and then the runs differ in
nothing but the room that is left, or the limited run ends with the refusal of the sink after the
first definitions and the first bytes of the unlimited one.  No form goes on after an error, so what
is true of the print that does not fit is true of every form around it (`CutsOff.bind`).
-/

namespace ConsLisp

/-! ## First bytes -/

theorem extract_of_size_le {bytes : ByteArray} {count : Nat} (h : bytes.size ≤ count) :
    bytes.extract 0 count = bytes := by
  ext1
  simpa using Or.inr h

/-- The first bytes are all from the first part. -/
theorem extract_append_of_le {bytes : ByteArray} (more : ByteArray) {count : Nat}
    (h : count ≤ bytes.size) : (bytes ++ more).extract 0 count = bytes.extract 0 count := by
  have hrest : count - bytes.size = 0 := by omega
  rw [ByteArray.extract_append, hrest]
  simp

/-- The first bytes are the whole first part and some of the second. -/
theorem extract_append_of_ge {bytes : ByteArray} (more : ByteArray) {count : Nat}
    (h : bytes.size ≤ count) :
    (bytes ++ more).extract 0 count = bytes ++ more.extract 0 (count - bytes.size) := by
  rw [ByteArray.extract_append, extract_of_size_le h, Nat.zero_sub]

/-! ## Runs with and without a limit -/

variable {F : Type}

/-- The environment with another amount of room for output. -/
def Environment.withRoom (env : Environment F) (room : Option Nat) : Environment F :=
  { env with output := { env.output with room } }

variable [Frame F]

/-- How the run `full` from `env`, which makes the definitions `news`, prints `bytes` and leaves
`last`, compares with the run that has room for `room` bytes only. -/
structure Environment.Limits {A : Type} (env : Environment F) (room : Nat)
    (full limited : Outcome (Environment F) A) (news : List (String × Cell)) (bytes : ByteArray)
    (last : Environment F) : Prop where
  grown : env.Grown news bytes last
  unlimited : last.output.room = none
  fits : bytes.size ≤ room →
    limited = full.mapState fun last => last.withRoom (some (room - bytes.size))
  overflows : room < bytes.size → ∃ last' news', news' <+: news ∧
    limited = .failure (.output env.output.refusal) last' ∧ last'.output.room = some 0 ∧
    env.Grown news' (bytes.extract 0 room) last'

namespace Environment.Limits

variable {A B : Type}

/-- An error ends a run, with a limit and without one. -/
theorem bind_failure {env last : Environment F} {room : Nat} {e : EvalError} {y : EvalM F A}
    {g : A → EvalM F B} {news : List (String × Cell)} {bytes : ByteArray}
    (h : env.Limits room (.failure e last) (y (env.withRoom (some room))) news bytes last) :
    env.Limits room (.failure e last) ((y >>= g) (env.withRoom (some room))) news bytes last where
  grown := h.grown
  unlimited := h.unlimited
  fits hle := EvalM.bind_of_failure (h.fits hle)
  overflows hlt := by
    obtain ⟨last', news', hprefix, hlimited, hfull, hgrown⟩ := h.overflows hlt
    exact ⟨last', news', hprefix, EvalM.bind_of_failure hlimited, hfull, hgrown⟩

/-- The limit is reached before a certain moment or after it, or not at all. -/
theorem bind_value {env mid last : Environment F} {room : Nat} {a : A} {y : EvalM F A}
    {g : A → EvalM F B} {full : Outcome (Environment F) B} {news news' : List (String × Cell)}
    {bytes bytes' : ByteArray}
    (h : env.Limits room (.value a mid) (y (env.withRoom (some room))) news bytes mid)
    (h' : mid.Limits (room - bytes.size) full (g a (mid.withRoom (some (room - bytes.size))))
      news' bytes' last) :
    env.Limits room full ((y >>= g) (env.withRoom (some room))) (news ++ news')
      (bytes ++ bytes') last where
  grown := h.grown.trans h'.grown
  unlimited := h'.unlimited
  fits hle := by
    rw [ByteArray.size_append] at hle ⊢
    rw [EvalM.bind_of_value (h.fits (by omega)), h'.fits (by omega), Nat.sub_sub]
  overflows hlt := by
    rw [ByteArray.size_append] at hlt
    by_cases hroom : bytes.size ≤ room
    · obtain ⟨last', more, hprefix, hlimited, hfull, hgrown⟩ := h'.overflows (by omega)
      refine ⟨last', news ++ more, (List.prefix_append_right_inj news).2 hprefix, ?_, hfull, ?_⟩
      · rw [EvalM.bind_of_value (h.fits hroom), hlimited, h.grown.refusal_eq]
      · rw [extract_append_of_ge bytes' hroom]
        exact h.grown.trans hgrown
    · obtain ⟨last', first, hprefix, hlimited, hfull, hgrown⟩ := h.overflows (by omega)
      refine ⟨last', first, hprefix.trans (List.prefix_append news news'),
        EvalM.bind_of_failure hlimited, hfull, ?_⟩
      rw [extract_append_of_le bytes' (by omega)]
      exact hgrown

theorem leave {env last : Environment F} {bindings : List (String × Cell)} {room : Nat}
    {full limited : Outcome (Environment F) A} {news : List (String × Cell)} {bytes : ByteArray}
    (h : (env.enter bindings).Limits room full limited news bytes last) :
    env.Limits room (full.mapState Environment.pop) (limited.mapState Environment.pop) news bytes
      last.pop where
  grown := h.grown.leave
  unlimited := h.unlimited
  fits hle := by
    rw [h.fits hle]
    cases full <;> rfl
  overflows hlt := by
    obtain ⟨last', news', hprefix, hlimited, hfull, hgrown⟩ := h.overflows hlt
    exact ⟨last'.pop, news', hprefix, by rw [hlimited]; rfl, hfull, hgrown.leave⟩

end Environment.Limits

/-- The second action under a limit is the first one cut off there. -/
def CutsOff : ActionRel F F := fun _ Q x y =>
  ∀ (env : Environment F) (room : Nat), env.output.room = none →
    (x env).Ends
      (fun a last => Q a ∧ ∃ news bytes,
        env.Limits room (x env) (y (env.withRoom (some room))) news bytes last)
      fun _ last => ∃ news bytes,
        env.Limits room (x env) (y (env.withRoom (some room))) news bytes last

namespace CutsOff

variable {A B : Type}

theorem bind {Q : A → Prop} {Q' : B → Prop} {x y : EvalM F A} {f g : A → EvalM F B}
    (h : CutsOff Q x y) (hf : ∀ a, Q a → CutsOff Q' (f a) (g a)) :
    CutsOff Q' (x >>= f) (y >>= g) := by
  intro env room hroom
  have hends := h env room hroom
  cases hx : x env with
  | value a mid =>
    rw [hx] at hends
    obtain ⟨ha, news, bytes, hmid⟩ := hends
    rw [EvalM.bind_of_value hx]
    refine (hf a ha mid (room - bytes.size) hmid.unlimited).mono ?_ ?_
    · rintro b last ⟨hb, news', bytes', hlast⟩
      exact ⟨hb, _, _, hmid.bind_value hlast⟩
    · rintro e last ⟨news', bytes', hlast⟩
      exact ⟨_, _, hmid.bind_value hlast⟩
  | failure e last =>
    rw [hx] at hends
    obtain ⟨news, bytes, hlast⟩ := hends
    rw [EvalM.bind_of_failure hx]
    exact ⟨news, bytes, hlast.bind_failure⟩
  | exhausted =>
    rw [EvalM.bind_of_exhausted hx]
    trivial

/-- An action that prints nothing does not notice how much room there is. -/
theorem silent {Q : A → Prop} {x : EvalM F A}
    (hroom : ∀ (env : Environment F) room, x (env.withRoom room) =
      (x env).mapState fun last => last.withRoom room)
    (hgrown : ∀ env : Environment F, (x env).Ends
      (fun a last => Q a ∧ last.output = env.output ∧ ∃ news, env.Grown news .empty last)
      fun _ last => last.output = env.output ∧ ∃ news, env.Grown news .empty last) :
    CutsOff Q x x := by
  intro env room henv
  have hcut (last : Environment F) (houtput : last.output = env.output)
      (news : List (String × Cell)) (h : env.Grown news .empty last) :
      env.Limits room (x env) (x (env.withRoom (some room))) news .empty last :=
    ⟨h, by rw [houtput, henv], fun _ => hroom env (some room),
      fun hlt => absurd hlt (Nat.not_lt_zero room)⟩
  refine (hgrown env).mono ?_ ?_
  · rintro a last ⟨ha, houtput, news, h⟩
    exact ⟨ha, news, _, hcut last houtput news h⟩
  · rintro e last ⟨houtput, news, h⟩
    exact ⟨news, _, hcut last houtput news h⟩

theorem sequenced : Sequenced (CutsOff (F := F)) where
  pure_rel hQ := silent (fun _ _ => rfl) fun env => ⟨hQ, rfl, [], .refl env⟩
  bind_rel := bind
  fail_rel _ := silent (fun _ _ => rfl) fun env => ⟨rfl, [], .refl env⟩
  exhausted_rel _ _ _ := trivial

theorem lookup (name : String) :
    CutsOff (F := F) (fun _ => True) (EvalM.lookup name) (EvalM.lookup name) := by
  refine silent (fun env room => ?_) fun env => ?_
  · have hsame : (env.withRoom room).lookup? name = env.lookup? name := rfl
    unfold EvalM.lookup
    rw [hsame]
    cases env.lookup? name <;> rfl
  · unfold EvalM.lookup
    cases env.lookup? name with
    | some v => exact ⟨trivial, rfl, [], .refl env⟩
    | none => exact ⟨rfl, [], .refl env⟩

theorem write (text : String) :
    CutsOff (F := F) (fun _ => True) (EvalM.write text) (EvalM.write text) := by
  intro env room henv
  have hfull : EvalM.write text env = .value () (env.printed none text.toUTF8) := by
    obtain ⟨globals, locals, ⟨_, refusal, written⟩, events⟩ := env
    obtain rfl := henv
    rfl
  rw [hfull]
  refine ⟨trivial, [], text.toUTF8, env.grown_printed none _, rfl, fun hle => ?_, fun hlt => ?_⟩
  · simp only [EvalM.write, Environment.write, Sink.write, Environment.withRoom, if_pos hle]
    rfl
  · refine ⟨env.printed (some 0) (text.toUTF8.extract 0 room), [], List.prefix_rfl, ?_, rfl,
      env.grown_printed _ _⟩
    simp only [EvalM.write, Environment.write, Sink.write, Environment.withRoom,
      if_neg (Nat.not_le_of_lt hlt)]
    rfl

theorem define {name : String} (hname : Operator.isReserved name = false) (value : Cell) :
    CutsOff (F := F) (fun _ => True) (EvalM.define name value) (EvalM.define name value) := by
  refine silent (fun env room => ?_) fun env => ?_
  · have hsame : (env.withRoom room).globals = env.globals := rfl
    unfold EvalM.define Environment.define?
    rw [checkBindable_of_not_isReserved hname, hsame]
    cases Frame.insert? env.globals name value <;> rfl
  · unfold EvalM.define
    obtain ⟨globals, hinsert, hdef⟩ | ⟨-, hdef⟩ := env.define?_cases value hname
    · rw [hdef]
      exact ⟨trivial, rfl, _, env.grown_define hname hinsert _⟩
    · rw [hdef]
      exact ⟨rfl, [], .refl env⟩

theorem inFrame {Q : A → Prop} {x y : EvalM F A} {bindings : List (String × Cell)}
    (h : CutsOff Q x y) : CutsOff Q (EvalM.inFrame bindings x) (EvalM.inFrame bindings y) := by
  intro env room henv
  have hends := h (env.enter bindings) room henv
  rw [Outcome.inFrame_eq_mapState, Outcome.inFrame_eq_mapState]
  cases hx : x (env.enter bindings) with
  | value a last =>
    rw [hx] at hends
    obtain ⟨ha, news, bytes, hlast⟩ := hends
    exact ⟨ha, news, bytes, hlast.leave⟩
  | failure e last =>
    rw [hx] at hends
    obtain ⟨news, bytes, hlast⟩ := hends
    exact ⟨news, bytes, hlast.leave⟩
  | exhausted => trivial

theorem closed : Closed (fun _ => True) (CutsOff (F := F)) where
  toSequenced := sequenced
  note_rel _ := silent (fun _ _ => rfl) fun env => ⟨trivial, rfl, [], env.grown_record _⟩
  lookup_rel _ := lookup _
  write_rel := write
  defineAs_rel hname h := sequenced.defineAs_rel trivial
    (fun _ _ => silent (fun _ _ => rfl) fun env => ⟨trivial, rfl, [], .refl env⟩)
    (fun _ hname value _ => define hname value) hname h
  inFrame_rel _ := inFrame

end CutsOff

/-- **A limit on the output cuts a run off where it is reached.**  Take a run that ends without a
limit, and prints `bytes`.  If these fit into the room, the run under the limit is the same and
leaves the same environment, except for the room.  Otherwise the sink gets exactly as many of the
bytes as there is room for, the run fails with the refusal of the sink, all frames are taken off
again, and what has been defined is part of what is defined without the limit. -/
theorem output_is_cut_off_at_limit [LawfulFrame F] {budget : Nat} {expr : Cell}
    {env last : Environment F} (room : Nat)
    (h : (evaluate budget expr (env.withRoom none)).state? = some last) :
    ∃ bytes, last.output.written = env.output.written ++ bytes ∧
      (bytes.size ≤ room → evaluate budget expr (env.withRoom (some room)) =
        (evaluate budget expr (env.withRoom none)).mapState fun last =>
          last.withRoom (some (room - bytes.size))) ∧
      (room < bytes.size → ∃ last', evaluate budget expr (env.withRoom (some room)) =
          .failure (.output env.output.refusal) last' ∧
        last'.output =
          ⟨some 0, env.output.refusal, env.output.written ++ bytes.extract 0 room⟩ ∧
        last'.locals = env.locals ∧
        ∀ name value, Frame.find? last'.globals name = some value →
          Frame.find? last.globals name = some value) := by
  have hrun : CutsOff (Passing fun _ => True) (evaluate (F := F) budget expr)
      (evaluate budget expr) := CutsOff.closed.evaluate_run .all budget (.inl trivial)
  have hends := hrun (env.withRoom none) room rfl
  have hlimits : ∃ news bytes, (env.withRoom none).Limits room
      (evaluate budget expr (env.withRoom none)) (evaluate budget expr (env.withRoom (some room)))
      news bytes last := by
    cases hfull : evaluate budget expr (env.withRoom none) with
    | value v last' =>
      rw [hfull] at hends h
      obtain rfl := Option.some.inj h
      exact hends.2
    | failure e last' =>
      rw [hfull] at hends h
      obtain rfl := Option.some.inj h
      exact hends
    | exhausted =>
      rw [hfull] at h
      cases h
  obtain ⟨news, bytes, hlimits⟩ := hlimits
  refine ⟨bytes, hlimits.grown.written_eq, hlimits.fits, fun hlt => ?_⟩
  obtain ⟨last', first, ⟨more, rfl⟩, hlimited, hroom, hgrown⟩ := hlimits.overflows hlt
  refine ⟨last', hlimited, ?_, hgrown.locals_eq, fun name value hvalue => ?_⟩
  · have hwritten : last'.output.written = env.output.written ++ bytes.extract 0 room :=
      hgrown.written_eq
    have hrefusal : last'.output.refusal = env.output.refusal := hgrown.refusal_eq
    rw [← hroom, ← hwritten, ← hrefusal]
  · have hlookup : Frame.find? last.globals name =
        (Frame.find? last'.globals name).or (more.lookup name) := by
      rw [hlimits.grown.globals.find?_eq, hgrown.globals.find?_eq, List.lookup_append,
        Option.or_assoc]
    rw [hlookup, hvalue, Option.some_or]

/-- The newline after the second word is the byte that does not fit. -/
theorem output_is_cut_off_at_limit_before_newline :
    let env : Environment OrderedFrame := Environment.fresh (.empty none "disk full")
    let print (word : String) : Cell :=
      .ofList [.symbol "print", .ofList [.symbol "quote", .symbol word]]
    let expr : Cell := .ofList
      [.symbol "define", .symbol "x", .ofList [.symbol "cons", print "ab", print "cd"]]
    (∃ last, evaluate 6 expr (env.withRoom none) = .value .nil last ∧
      last.isGloballyBound "x" = true ∧ last.output.written = "ab\ncd\n".toUTF8) ∧
    ∃ last', evaluate 6 expr (env.withRoom (some 5)) = .failure (.output "disk full") last' ∧
      last'.output = ⟨some 0, "disk full", "ab\ncd".toUTF8⟩ := by
  intro env print expr
  obtain ⟨last, hrun, hbound, hwritten⟩ : ∃ last,
      evaluate 6 expr (env.withRoom none) = .value .nil last ∧
        last.isGloballyBound "x" = true ∧ last.output.written = "ab\ncd\n".toUTF8 :=
    ⟨_, rfl, rfl, rfl⟩
  have hstate : (evaluate 6 expr (env.withRoom none)).state? = some last := by
    rw [hrun]
    rfl
  obtain ⟨bytes, hbytes, -, hcut⟩ := output_is_cut_off_at_limit 5 hstate
  have hempty : env.output.written = .empty := rfl
  rw [hempty, ByteArray.empty_append, hwritten] at hbytes
  subst hbytes
  obtain ⟨last', hlimited, houtput, -⟩ := hcut (by decide)
  rw [hempty, ByteArray.empty_append] at houtput
  exact ⟨⟨last, hrun, hbound, hwritten⟩, last', hlimited, houtput⟩

end ConsLisp
