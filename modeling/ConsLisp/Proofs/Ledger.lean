import ConsLisp.Proofs.Simulation

/-!
# Ledgers

Whoever wants to know what was defined, and as what, has to look at the whole history of a run: the
global frame shows only the outcome, and the record of events shows names and kinds but no values.
`Ledger` is a frame that keeps this history.  It answers like the frame inside it, so the evaluator
runs on ledgers as it runs on any frame, and it writes down every insertion it accepts.  Whether
there are ledgers makes no difference to anything else (`Environment.plain_simulation`).
-/

namespace ConsLisp

variable {F : Type} [Frame F]

/-- A frame together with the bindings that were ever inserted into it, in their order. -/
structure Ledger (F : Type) where
  frame : F
  made : List (String × Cell)

namespace Ledger

instance : Frame (Ledger F) where
  empty := ⟨Frame.empty, []⟩
  find? ledger name := Frame.find? ledger.frame name
  insert? ledger name value :=
    (Frame.insert? ledger.frame name value).map fun frame =>
      ⟨frame, ledger.made ++ [(name, value)]⟩
  erase ledger name := ⟨Frame.erase ledger.frame name, ledger.made⟩
  size ledger := Frame.size ledger.frame
  toList ledger := Frame.toList ledger.frame

theorem insert?_eq_some_iff {ledger ledger' : Ledger F} {name : String} {value : Cell} :
    Frame.insert? ledger name value = some ledger' ↔
      Frame.insert? ledger.frame name value = some ledger'.frame ∧
        ledger'.made = ledger.made ++ [(name, value)] := by
  obtain ⟨frame', made'⟩ := ledger'
  show Option.map _ _ = _ ↔ _
  rw [Option.map_eq_some_iff]
  constructor
  · rintro ⟨frame, hinsert, heq⟩
    obtain ⟨rfl, rfl⟩ := Ledger.mk.inj heq
    exact ⟨hinsert, rfl⟩
  · rintro ⟨hinsert, rfl⟩
    exact ⟨frame', hinsert, rfl⟩

instance [LawfulFrame F] : LawfulFrame (Ledger F) where
  find?_empty := LawfulFrame.find?_empty (F := F)
  insert?_eq_none_iff ledger name value := by
    show Option.map _ _ = none ↔ _
    rw [Option.map_eq_none_iff]
    exact LawfulFrame.insert?_eq_none_iff ledger.frame name value
  find?_of_insert? ledger ledger' name value h :=
    LawfulFrame.find?_of_insert? ledger.frame ledger'.frame name value (insert?_eq_some_iff.1 h).1
  find?_erase ledger := LawfulFrame.find?_erase ledger.frame
  mem_toList_iff ledger := LawfulFrame.mem_toList_iff ledger.frame
  nodup_names ledger := LawfulFrame.nodup_names ledger.frame
  size_eq_length ledger := LawfulFrame.size_eq_length ledger.frame

theorem frame_insert? (ledger : Ledger F) (name : String) (value : Cell) :
    (Frame.insert? ledger name value).map frame = Frame.insert? ledger.frame name value := by
  show Option.map frame (Option.map _ _) = _
  rw [Option.map_map]
  exact Option.map_id'

theorem frame_ofList (bindings : List (String × Cell)) :
    (Frame.ofList bindings : Ledger F).frame = Frame.ofList bindings :=
  Frame.map_insertAll (fun b _ ledger => ledger.frame_insert? b.1 b.2) Frame.empty

/-- What is added to a frame is what is written in its ledger. -/
theorem made_of_adds {ledger ledger' : Ledger F} {news : List (String × Cell)}
    (h : Frame.Adds ledger news ledger') : ledger'.made = ledger.made ++ news := by
  induction news generalizing ledger with
  | nil =>
    obtain rfl := h
    exact (List.append_nil _).symm
  | cons b news ih =>
    obtain ⟨mid, hmid, h⟩ := h
    rw [ih h, (insert?_eq_some_iff.1 hmid).2, List.append_assoc]
    rfl

end Ledger

namespace Environment

/-- The environment without its ledgers. -/
def plain (env : Environment (Ledger F)) : Environment F :=
  env.mapFrames Ledger.frame

/-- All definitions so far, in the order in which they were made. -/
def made (env : Environment (Ledger F)) : List (String × Cell) :=
  env.globals.made

theorem plain_push (env : Environment (Ledger F)) (bindings : List (String × Cell)) :
    (env.push (Frame.ofList bindings)).plain = env.plain.push (Frame.ofList bindings) := by
  rw [plain, mapFrames_push, Ledger.frame_ofList]
  rfl

/-- The environment with a ledger for each frame, in which nothing is written yet. -/
def withLedgers (env : Environment F) : Environment (Ledger F) :=
  env.mapFrames fun frame => ⟨frame, []⟩

omit [Frame F] in
theorem plain_withLedgers (env : Environment F) : env.withLedgers.plain = env := by
  simp [plain, withLedgers, mapFrames, Function.comp_def]

/-- Nothing that is done with an environment depends on whether there are ledgers. -/
theorem plain_simulation :
    Environment.Simulation fun (env : Environment F) (logged : Environment (Ledger F)) =>
      logged.plain = env where
  depth_eq h := by rw [← h, plain, mapFrames_depth]
  lookup?_eq h name := by
    rw [← h, plain]
    exact mapFrames_lookup? Ledger.frame _ (fun _ _ => rfl) name
  isGloballyBound_eq h _ := by
    rw [← h]
    rfl
  globalNames_eq h := by
    rw [← h]
    rfl
  record h event _ := congrArg (·.record event) h
  write_eq h _ := by
    rw [← h]
    rfl
  refusal_eq h := by
    rw [← h]
    rfl
  write h text := congrArg (fun env => (env.write text).2) h
  define h name value globals globals' _ hinsert hinsert' := by
    obtain rfl := h
    have hframe := (Ledger.insert?_eq_some_iff.1 hinsert').1
    obtain rfl := Option.some.inj (hframe.symm.trans hinsert)
    rfl
  push h bindings := by rw [plain_push, h]
  pop h := by rw [plain, mapFrames_pop, ← h, plain]

end Environment

end ConsLisp
