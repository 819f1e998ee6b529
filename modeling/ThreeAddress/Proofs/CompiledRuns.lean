import ThreeAddress.Compile
import ThreeAddress.Proofs.BodyRuns
import ThreeAddress.Proofs.Resolving
import ThreeAddress.Proofs.SpelledReading

/-!
# Running compiled programs

The code of an accepted source does what the source does: each function and the main part, in any world,
from any values of the variables and for any arguments.

* `Program.start`, `Program.finish` — the first and the last instruction of a body;
* `Program.generatorAt` — what its names are supplied by;
* `Program.code_at_nth`, `Program.code_at_body` — where the code of a function, and of each body, stands;
* `Program.bodies_plain` — the names of an accepted program are plain;
* `compile_runsAs` — a body of an accepted source runs as its code does.
-/

namespace ThreeAddress

/-! ### Where bodies stand -/

namespace Program

variable (p : Program)

/-- The place of the first instruction of a body. -/
def start (i : Nat) : Nat := (Func.codeOf (p.funcs.take i) .first).length

/-- The generator that the code of a body comes from. -/
def generatorAt (i : Nat) : Generator := Generator.first.behind (p.funcs.take i)

/-- The place of the last instruction of a body, which stands before the next one. -/
def finish (i : Nat) : Nat := (if i < p.funcs.length then p.start (i + 1) else p.code.length) - 1

variable {p}

/-- Where the code of a function stands. -/
theorem code_at_nth {i : Nat} {f : Func} (hf : p.funcs[i]? = some f) :
    let g := Generator.first.behind (p.funcs.take i)
    (∃ behind, p.code =
      Func.codeOf (p.funcs.take i) .first ++ (.label f.name :: (f.lowerWithin.run g).record) ++ behind) ∧
      g.names.ordinal = i + 1 ∧ p.finish i = p.start i + (f.lowerWithin.run g).record.length := by
  intro g
  obtain ⟨hi, -⟩ := List.getElem?_eq_some_iff.1 hf
  let behind := Func.codeOf (p.funcs.drop (i + 1)) (Generator.first.behind (p.funcs.take (i + 1))) ++
    .label "main" :: (p.lowerMainWithin.run (Generator.first.behind p.funcs)).record
  have hsplit : Func.codeOf p.funcs .first = Func.codeOf (p.funcs.take (i + 1)) .first ++
      Func.codeOf (p.funcs.drop (i + 1)) (Generator.first.behind (p.funcs.take (i + 1))) := by
    rw [← Func.codeOf_append, List.take_append_drop]
  have htake : p.funcs.take (i + 1) = p.funcs.take i ++ [f] := by
    rw [List.take_add_one, hf]
    rfl
  have hone : Func.codeOf [f] g = .label f.name :: (f.lowerWithin.run g).record := by
    rw [Func.codeOf_cons, f.run_lower]
    exact List.append_nil _
  have hnext : Func.codeOf (p.funcs.take (i + 1)) .first = Func.codeOf (p.funcs.take i) .first ++
      (.label f.name :: (f.lowerWithin.run g).record) := by
    rw [htake, Func.codeOf_append, hone]
  refine ⟨⟨behind, ?_⟩, ?_, ?_⟩
  · rw [p.code_eq, hsplit, hnext, List.append_assoc]
  · rw [Generator.ordinal_behind, List.length_take, Nat.min_eq_left (Nat.le_of_lt hi)]
    exact Nat.add_comm 1 i
  · rw [finish, if_pos hi, start, hnext, List.length_append, List.length_cons]
    rfl

/-- Where the code of the main part stands. -/
theorem start_main (p : Program) : p.start p.funcs.length = (Func.codeOf p.funcs .first).length := by
  rw [start, List.take_length]

theorem finish_main (p : Program) : p.finish p.funcs.length =
    p.start p.funcs.length + (p.lowerMainWithin.run (Generator.first.behind p.funcs)).record.length := by
  rw [finish, if_neg (Nat.lt_irrefl _), p.code_eq, p.start_main, List.length_append, List.length_cons]
  rfl

theorem bodies_func {i : Nat} {f : Func} (hf : p.funcs[i]? = some f) : p.bodies[i]? = some f.asBody := by
  obtain ⟨hi, -⟩ := List.getElem?_eq_some_iff.1 hf
  rw [bodies, List.getElem?_append_left (by rw [List.length_map]; exact hi), List.getElem?_map, hf]
  rfl

theorem bodies_length (p : Program) : p.bodies[p.funcs.length]? = some p.mainBody := by
  rw [bodies, List.getElem?_append_right (Nat.le_of_eq (List.length_map _)), List.length_map, Nat.sub_self]
  rfl

/-- The bodies are those of the functions and the main part. -/
theorem getElem?_bodies {i : Nat} {b : Body} (hb : p.bodies[i]? = some b) :
    (∃ f, p.funcs[i]? = some f ∧ b = f.asBody) ∨ i = p.funcs.length ∧ b = p.mainBody := by
  rw [bodies, List.getElem?_append, List.length_map] at hb
  split at hb
  · rw [List.getElem?_map] at hb
    obtain ⟨f, hf, rfl⟩ := Option.map_eq_some_iff.1 hb
    exact .inl ⟨f, hf, rfl⟩
  · rename_i hi
    rw [List.getElem?_singleton] at hb
    split at hb
    · rename_i hlast
      cases hb
      exact .inr ⟨by omega, rfl⟩
    · cases hb

/-- The code of a body stands behind its label. -/
theorem code_at_body {i : Nat} {b : Body} (hb : p.bodies[i]? = some b) :
    ∃ before behind name last,
      p.code = before ++ (.label name :: ((b.lower last).run (p.generatorAt i)).record) ++ behind ∧
      before.length = p.start i ∧ (p.generatorAt i).names.ordinal = i + 1 ∧
      p.finish i = p.start i + ((b.lower last).run (p.generatorAt i)).record.length ∧
      b.Ending last := by
  rcases getElem?_bodies hb with ⟨f, hf, rfl⟩ | ⟨rfl, rfl⟩
  · obtain ⟨⟨behind, hcode⟩, hordinal, hfinish⟩ := code_at_nth hf
    exact ⟨_, behind, f.name, (lowerReturn · f.returnValue), hcode, rfl, hordinal, hfinish, .returns⟩
  · have hgenerator : p.generatorAt p.funcs.length = Generator.first.behind p.funcs := by
      rw [generatorAt, List.take_length]
    rw [hgenerator]
    refine ⟨Func.codeOf p.funcs .first, [], "main", fun _ => Pass.tell (.call exitRoutine 0), ?_,
      p.start_main.symm, ?_, p.finish_main, .exits rfl⟩
    · rw [List.append_nil]
      exact p.code_eq
    · rw [Generator.ordinal_behind]
      exact Nat.add_comm 1 _

end Program

/-! ### Names of accepted programs -/

theorem Func.InOrder.plain {f : Func} {v : View} (hf : f.InOrder v) (hv : v.Unreserved) (hs : f.Spelled) :
    f.asBody.Plain := by
  have hnames := hf.names.unreserved
  rw [Func.scopeNames] at hnames
  have hparams : (f.paramView v).Unreserved := by
    rw [f.paramView_eq]
    refine hv.enter.declareNames fun x hx => hnames x (List.mem_append_left _ ?_)
    rwa [List.map_map] at hx
  have hbody : (f.bodyView v).Unreserved := by
    rw [f.bodyView_eq]
    refine hv.enter.declareNames fun x hx => hnames x ?_
    rwa [List.map_append, List.map_map, List.map_map] at hx
  have hdecls := hparams.plainDecls hf.decls (fun x hx => hnames x (List.mem_append_right _ hx)) hs.decls
  refine ⟨fun d hd => absurd hd List.not_mem_nil, fun d hd => ⟨(hdecls d hd).1, (hdecls d hd).2⟩,
    hbody.allPlain hf.body.binds hs.body, ?_⟩
  intro e he
  have hreturned := hf.returned
  rw [Func.ReturnInOrder, show f.returnValue = some e from he] at hreturned
  exact (hbody.after f.body.nodes).allPlain hreturned.reads.binds (hs.returned e he)

namespace Program

variable {p : Program}

theorem WellFormed.nodup_labels (hs : p.Spelled) (hw : p.WellFormed) : (definedLabels p.code).Nodup := by
  have hnames := hw.names
  rw [scopeNames] at hnames
  refine Program.nodup_labels ⟨(List.nodup_append.1 hnames.distinct).2.1,
    fun x hx => hnames.unreserved x (List.mem_append_right _ hx)⟩ ?_
  intro f hf hname
  -- `main` is a word of the language
  have hid := (hs.funcs f hf).name
  rw [hname] at hid
  exact absurd hid (by decide)

/-- **Plain names.**  The names of a well-formed program that is spelled are plain. -/
theorem bodies_plain (hs : p.Spelled) (hw : p.WellFormed) {i : Nat} {b : Body}
    (hb : p.bodies[i]? = some b) : b.Plain := by
  rw [bodies] at hb
  rcases List.mem_append.1 (List.mem_of_getElem? hb) with hb | hb
  · obtain ⟨f, hf, rfl⟩ := List.mem_map.1 hb
    obtain ⟨j, hj⟩ := List.getElem?_of_mem hf
    have hname : isReservedName f.name = false :=
      hw.names.unreserved _ (List.mem_append_right _ (List.mem_map_of_mem hf))
    exact Func.InOrder.plain (hw.func hj) ((hw.viewAt j).2.declare hname _) (hs.funcs f hf)
  · rw [List.mem_singleton.1 hb]
    have hmain : p.mainView.Unreserved := by
      rw [← p.viewAt_length]
      exact (hw.viewAt _).2
    have hglobals := View.Unreserved.empty.plainDecls hw.decls
      (fun x hx => hw.names.unreserved x (List.mem_append_left _ hx)) hs.decls
    have hdecls := hmain.enter.plainDecls hw.mainDecls hw.mainNames.unreserved hs.mainDecls
    have hbody : (p.mainView.enter.declareAll p.main.decls).Unreserved := by
      rw [View.declareAll_eq]
      refine hmain.enter.declareNames fun x hx => hw.mainNames.unreserved x ?_
      rwa [List.map_map] at hx
    exact ⟨fun d hd => ⟨(hglobals d hd).1, (hglobals d hd).2⟩, fun d hd => ⟨(hdecls d hd).1, (hdecls d hd).2⟩,
      hbody.allPlain hw.mainBody.binds hs.mainBody, fun e he => by cases he⟩

end Program

/-! ### Accepted sources -/

/-- An accepted source is a spelled program in order, and its code is that of the program. -/
theorem compile_eq_ok {source : String} {compiled : Compiled} (h : compile source = .ok compiled) :
    ∃ p, Program.ofSource source = .ok p ∧ p.analyze.isClean = true ∧ compiled.code = p.code := by
  unfold compile at h
  split at h
  · cases h
  · rename_i p hp
    dsimp only at h
    split at h
    · rename_i hclean
      cases h
      exact ⟨p, hp, hclean, rfl⟩
    · cases h

/-- Every body of a program runs as code that stands for it, in any world, from any values of the variables
and any history of calls, and with any arguments. -/
def Program.RunsAs (p : Program) (code : List Instruction) : Prop :=
  ∀ (i : Nat) (b : Body), p.bodies[i]? = some b →
    ∀ (w : World) (args : List Value) (store : String → Value) (history : List Event),
      b.RunsAs ⟨w, code, args⟩ (i + 1) (p.finish i)
        ⟨⟨store, fun x => store (localText x (i + 1))⟩, history⟩ ⟨p.start i, store, [], history⟩

/-- **Compiled programs run as their sources.**  In an accepted source every function, and the main part
behind the global constants, runs as its code does: from its first instruction the machine comes to its last
one where the body comes to its end, with the same variables, calls and returned value; and where the body
never ends, neither does the machine. -/
theorem compile_runsAs {source : String} {compiled : Compiled} (h : compile source = .ok compiled) :
    ∃ p, Program.ofSource source = .ok p ∧ p.RunsAs compiled.code := by
  obtain ⟨p, hp, hclean, hcode⟩ := compile_eq_ok h
  refine ⟨p, hp, fun i b hb w args store history => ?_⟩
  have hw := Program.WellFormed.of_clean hclean
  have hs := ofSource_spelled hp
  let M : Machine := ⟨w, compiled.code, args⟩
  let s : State := ⟨p.start i, store, [], history⟩
  let c : Config := ⟨⟨store, fun x => store (localText x (i + 1))⟩, history⟩
  have hu : M.Unambiguous := unambiguous_of_nodup (by
    show (definedLabels compiled.code).Nodup
    rw [hcode]
    exact hw.nodup_labels hs)
  have hplain := Program.bodies_plain hs hw hb
  obtain ⟨before, behind, name, last, hall, hbefore, hordinal, hfinish, hends⟩ := Program.code_at_body hb
  have hat : M.At before.length (.label name :: ((b.lower last).run (p.generatorAt i)).record) :=
    Machine.at_middle (hcode.trans hall)
  rw [hbefore] at hat
  have hstep : M.step s = some s.next := Machine.step_label hat.1
  have hstart : Matches (p.generatorAt i).names.ordinal c s.next := by
    rw [hordinal]
    exact ⟨⟨fun x _ _ => rfl, fun x _ => rfl⟩, rfl, rfl⟩
  have hruns := Body.lower_simulates hu hplain (hends.endsBy hu hplain) (s := s.next) hat.2 hstart
  have hlast : s.next.pc + ((b.lower last).run (p.generatorAt i)).record.length - 1 = p.finish i := by
    rw [hfinish, State.next_pc]
    show p.start i + 1 + _ - 1 = _
    omega
  rw [hlast, hordinal] at hruns
  constructor
  · intro c' returned hrun
    obtain ⟨s', hr, hpc, hs', hends⟩ := hruns.ends c' returned hrun
    exact ⟨s', .head hstep hr, hpc, hs', hends⟩
  · intro hno n
    exact (hruns.lasts hno n).of_reaches (.single hstep)

/-- A loop that calls a function and stores what it answers. -/
def loopingSource : String :=
  "var n: integer; integer f(a: integer) \x7b return (a); \x7d main \x7b n = 1; while (n < 3) \x7b n = f(n); \x7d \x7d"

/-- The code of that loop. -/
def loopingCode : List Instruction :=
  [.label "f", .getparam "a.1" 1, .ret (some (.atom "a.1")),
    .label "main", .assign "n" (.atom "1"), .label "L1",
    .assign "c1" (.atom "false"), .ifz (.binary "n" (.order .less) "3") "L3", .assign "c1" (.atom "true"),
    .label "L3", .ifz (.binary "c1" (.same .equal) "true") "L2",
    .param "n", .assign "n" (.call "f" 1), .goto "L1", .label "L2", .call "_exit" 0]

theorem compile_loopingSource : compile loopingSource = .ok ⟨loopingCode, []⟩ :=
  Except.eq_ok_of_toOption (by decide +kernel)

theorem compile_runsAs_loopingSource : compile loopingSource = .ok ⟨loopingCode, []⟩ ∧
    ∃ p, Program.ofSource loopingSource = .ok p ∧ p.RunsAs loopingCode :=
  ⟨compile_loopingSource, compile_runsAs compile_loopingSource⟩

end ThreeAddress
