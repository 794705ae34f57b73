import ScopedScript.Proofs.Run.History

/-!
# Outputs with a limit

An output with a limit takes the bytes that fit and then fails. A program whose output is limited
does what it does without a limit, up to the first call of `print` whose line does not fit. There
the bytes that fit are kept and the run stops. Nothing else depends on the output: no rule reads it,
and nothing that was written is taken back.

So each part of a run with a limit is compared with the same part of the run without one. If what
was written in the end fits, both do the same. If it did before but does not in the end, the run
with the limit has stopped on the way; which call that was can be read off the run without a limit,
made to halt at the call whose line passes the limit.
-/

namespace ScopedScript

namespace Machine

/-! ## States with a limit -/

/-- The state when its output has a limit. -/
def limited (m : Machine) (limit : Nat) : Machine :=
  { m with output := { m.output with limit := some limit } }

variable (m : Machine) (limit : Nat)

theorem callDepth_limited : (m.limited limit).callDepth = m.callDepth := rfl

theorem log_limited (event : Event) :
    (m.log event).limited limit = (m.limited limit).log event := rfl

theorem logPush_limited : m.logPush.limited limit = (m.limited limit).logPush := by
  have htop : (m.limited limit).stack.top? = m.stack.top? := rfl
  rw [logPush, logPush, htop]
  cases m.stack.top? <;> rfl

theorem pushFrame_limited (name : String) (kind : FrameKind) :
    (m.pushFrame name kind).limited limit = (m.limited limit).pushFrame name kind := by
  rw [pushFrame, logPush_limited, pushFrame]
  rfl

theorem pushCall_limited (name : String) (outer : Nat) :
    (m.pushCall name outer).limited limit = (m.limited limit).pushCall name outer := by
  rw [pushCall, pushCall]
  dsimp only
  rw [log_limited, ← callDepth_limited (logPush _) limit, logPush_limited]
  rfl

theorem popFrame_limited : m.popFrame.limited limit = (m.limited limit).popFrame := by
  have htop : (m.limited limit).stack.top? = m.stack.top? := rfl
  rw [popFrame, popFrame, htop]
  cases m.stack.top? <;> rfl

theorem popCall_limited : m.popCall.limited limit = (m.limited limit).popCall := by
  simp only [popCall, ← popFrame_limited]
  rfl

theorem finish_limited (ok : Bool) :
    (m.finish ok).limited limit = (m.limited limit).finish ok := by
  simp only [finish, ← popFrame_limited]
  rfl

end Machine

/-! ## The line that passes the limit -/

/-- The output with a line behind it. -/
def Machine.printed (m : Machine) (arguments : List Value) : ByteArray :=
  m.output.bytes ++ (Builtin.line arguments).toUTF8

/-- At a position `print` is about to be called, what was written so far keeps to a limit, and with
the line that is to be written it does not. -/
def Moment.Crosses (limit : Nat) (position : Position) (moment : Moment) (m : Machine) : Prop :=
  match moment with
  | .calling name arguments place =>
    place = position ∧ m.stack.findFunction? name = none ∧ Builtin.ofName? name = some .print ∧
      m.output.bytes.size ≤ limit ∧ limit < (m.printed arguments).size
  | _ => False

namespace Exec

/-! ## Runs that are cut off -/

theorem extract_append_of_le {bytes rest : ByteArray} {limit : Nat} (h : limit ≤ bytes.size) :
    (bytes ++ rest).extract 0 limit = bytes.extract 0 limit := by
  rw [ByteArray.extract_append, Nat.zero_sub, Nat.sub_eq_zero_of_le h, ByteArray.extract_same,
    ByteArray.append_empty]

/-- A run halts if it is asked to, and goes the way of another if not. -/
structure HaltsIf (asked : Prop) (halt : Halt) (m : Machine) {α : Type} (x y : Exec α) : Prop where
  halts : asked → ∃ after, x m = .error halt after
  follows : ¬ asked → x m = y m

/-- From a state whose output has no limit, the run `y` appends to the output. A limit only cuts it
off, at the position at which `x` halts if it is made to halt at the line that passes the limit:
* if the limit was passed before, `x` is not made to halt;
* if all that is written keeps to the limit, neither is `x` made to halt nor `y` cut off;
* if the limit is passed on the way, `y` is cut off at a position, with the bytes that fit, and `x`
  is made to halt if it is made to halt there. -/
structure CutsAt (limit : Nat) (position : Position) (halt : Halt) (m : Machine) {α : Type}
    (x y : Exec α) : Prop where
  unlimited : (final y m).output.limit = none
  appends : ∃ more, (final y m).output.bytes = m.output.bytes ++ more
  beyond : limit < m.output.bytes.size → x m = y m
  within : (final y m).output.bytes.size ≤ limit →
    x m = y m ∧ y (m.limited limit) = mapEnd (·.limited limit) (y m)
  crossed : m.output.bytes.size ≤ limit → limit < (final y m).output.bytes.size →
    ∃ place last, y (m.limited limit) = .error (.fault ⟨.outputFull, place⟩) last ∧
      last.output.bytes = (final y m).output.bytes.extract 0 limit ∧
      HaltsIf (position = place) halt m x y

/-- A limit only cuts a run off, from any state without one. -/
def Cuts (limit : Nat) (position : Position) (halt : Halt) {α : Type} (x y : Exec α) : Prop :=
  ∀ m, m.output.limit = none → CutsAt limit position halt m x y

section Cuts

variable {limit : Nat} {position : Position} {halt : Halt} {α β : Type}

theorem CutsAt.size_le {m : Machine} {x y : Exec α} (h : CutsAt limit position halt m x y) :
    m.output.bytes.size ≤ (final y m).output.bytes.size := by
  obtain ⟨more, heq⟩ := h.appends
  rw [heq, ByteArray.size_append]
  exact Nat.le_add_right _ _

/-- A run that does not mind the output, nor writes. -/
theorem CutsAt.of_blind {m : Machine} (hm : m.output.limit = none) {x y : Exec α}
    (hsame : x m = y m) (houtput : (final y m).output = m.output)
    (hlimited : y (m.limited limit) = mapEnd (·.limited limit) (y m)) :
    CutsAt limit position halt m x y where
  unlimited := by rw [houtput, hm]
  appends := ⟨.empty, by rw [houtput, ByteArray.append_empty]⟩
  beyond _ := hsame
  within _ := ⟨hsame, hlimited⟩
  crossed hle hlt := by
    rw [houtput] at hlt
    exact absurd hlt (Nat.not_lt.mpr hle)

/-- Only what the runs do counts. -/
theorem HaltsIf.congr {asked : Prop} {m m' : Machine} {x y x' y' : Exec α}
    (h : HaltsIf asked halt m x y) (hx : x' m' = x m) (hy : y' m' = y m) :
    HaltsIf asked halt m' x' y' where
  halts := by
    rw [hx]
    exact h.halts
  follows := by
    rw [hx, hy]
    exact h.follows

/-- Only what the runs do counts, with a limit and without. -/
theorem CutsAt.congr {m : Machine} {x y x' y' : Exec α} (h : CutsAt limit position halt m x y)
    (hx : x' m = x m) (hy : y' m = y m) (hlimited : y' (m.limited limit) = y (m.limited limit)) :
    CutsAt limit position halt m x' y' := by
  have hfinal : final y' m = final y m := by
    unfold final
    rw [hy]
  obtain ⟨hunlimited, happends, hbeyond, hwithin, hcrossed⟩ := h
  rw [← hfinal] at hunlimited happends hwithin hcrossed
  rw [← hx, ← hlimited, ← hy] at hwithin
  rw [← hx, ← hy] at hbeyond
  refine ⟨hunlimited, happends, hbeyond, hwithin, ?_⟩
  intro hle hlt
  obtain ⟨place, last, hcut, hbytes, hhalts⟩ := hcrossed hle hlt
  exact ⟨place, last, hlimited.trans hcut, hbytes, hhalts.congr hx hy⟩

theorem bind_congr_of_ok {m : Machine} {x y : Exec α} {g k : α → Exec β} (hx : x m = y m)
    (hnext : ∀ a after, y m = .ok a after → g a after = k a after) :
    (x >>= g) m = (y >>= k) m := by
  rw [bind_apply, bind_apply, hx]
  cases hy : y m with
  | ok a after => exact hnext a after hy
  | error reason after => rfl

/-- A run that is asked to halt in its first part does not come to the second. -/
theorem HaltsIf.bind {asked : Prop} {m : Machine} {x y : Exec α} {g k : α → Exec β}
    (h : HaltsIf asked halt m x y)
    (hnext : ∀ a after, y m = .ok a after → g a after = k a after) :
    HaltsIf asked halt m (x >>= g) (y >>= k) where
  halts hasked := by
    obtain ⟨after, hx⟩ := h.halts hasked
    exact ⟨after, by rw [bind_apply, hx]⟩
  follows hnot := bind_congr_of_ok (h.follows hnot) hnext

/-- The first run ends early, and the second is not begun. -/
theorem CutsAt.bind_error {m after : Machine} {x y : Exec α} {g k : α → Exec β}
    (h : CutsAt limit position halt m x y) {reason : Halt} (hy : y m = .error reason after) :
    CutsAt limit position halt m (x >>= g) (y >>= k) := by
  have hfinal : final (y >>= k) m = final y m := by
    simp only [final, bind_apply, hy]
  have hnext : ∀ a last, y m = .ok a last → g a last = k a last := by
    intro a last hok
    rw [hy] at hok
    cases hok
  obtain ⟨hunlimited, happends, hbeyond, hwithin, hcrossed⟩ := h
  rw [← hfinal] at hunlimited happends hwithin hcrossed
  refine ⟨hunlimited, happends, fun hlt => bind_congr_of_ok (hbeyond hlt) hnext, ?_, ?_⟩
  · intro hle
    obtain ⟨hsame, hlimited⟩ := hwithin hle
    simp only [bind_apply, hsame, hlimited, hy, mapEnd, and_self]
  · intro hle hlt
    obtain ⟨place, last, hcut, hbytes, hhalts⟩ := hcrossed hle hlt
    exact ⟨place, last, by rw [bind_apply, hcut], hbytes, hhalts.bind hnext⟩

/-- The second run begins where the first one ended. If the limit is passed in the first one, it was
passed before the second. -/
theorem CutsAt.bind_ok {m after : Machine} {x y : Exec α} {g k : α → Exec β}
    (h : CutsAt limit position halt m x y) {a : α} (hy : y m = .ok a after)
    (hnext : CutsAt limit position halt after (g a) (k a)) :
    CutsAt limit position halt m (x >>= g) (y >>= k) := by
  have hafter : final y m = after := by
    simp only [final, hy]
  have hfinal : final (y >>= k) m = final (k a) after := by
    simp only [final, bind_apply, hy]
  have hgrown := h.size_le
  have hsize := hnext.size_le
  obtain ⟨hunlimited, ⟨more, happends⟩, hbeyond, hwithin, hcrossed⟩ := h
  obtain ⟨hunlimited', ⟨rest, hrest⟩, hbeyond', hwithin', hcrossed'⟩ := hnext
  rw [hafter] at happends hwithin hcrossed hgrown
  have hthen : limit < after.output.bytes.size →
      ∀ b last, y m = .ok b last → g b last = k b last := by
    intro hlt b last hok
    rw [hy] at hok
    cases hok
    exact hbeyond' hlt
  refine ⟨?_, ?_, ?_, ?_, ?_⟩
  · rw [hfinal]
    exact hunlimited'
  · rw [hfinal]
    exact ⟨more ++ rest, by rw [hrest, happends, ByteArray.append_assoc]⟩
  · intro hlt
    exact bind_congr_of_ok (hbeyond hlt) (hthen (by omega))
  · rw [hfinal]
    intro hle
    obtain ⟨hsame, hlimited⟩ := hwithin (by omega)
    obtain ⟨hsame', hlimited'⟩ := hwithin' hle
    simp only [bind_apply, hsame, hlimited, hy, mapEnd]
    exact ⟨hsame', hlimited'⟩
  · rw [hfinal]
    intro hle hlt
    by_cases hfits : after.output.bytes.size ≤ limit
    · obtain ⟨hsame, hlimited⟩ := hwithin hfits
      obtain ⟨place, last, hcut, hbytes, hhalts⟩ := hcrossed' hfits hlt
      refine ⟨place, last, ?_, hbytes, hhalts.congr ?_ ?_⟩ <;>
        simp only [bind_apply, hlimited, hsame, hy, mapEnd, hcut]
    · obtain ⟨place, last, hcut, hbytes, hhalts⟩ := hcrossed hle (by omega)
      refine ⟨place, last, by rw [bind_apply, hcut], ?_, hhalts.bind (hthen (by omega))⟩
      rw [hbytes, hrest, extract_append_of_le (by omega)]

theorem CutsAt.bind {m : Machine} {x y : Exec α} {g k : α → Exec β}
    (h : CutsAt limit position halt m x y) (hg : ∀ a, Cuts limit position halt (g a) (k a)) :
    CutsAt limit position halt m (x >>= g) (y >>= k) := by
  cases hy : y m with
  | error reason after => exact h.bind_error hy
  | ok a after =>
    have hunlimited := h.unlimited
    simp only [final, hy] at hunlimited
    exact h.bind_ok hy (hg a after hunlimited)

theorem cuts_composes (limit : Nat) (position : Position) (halt : Halt) :
    Composes (Cuts limit position halt) where
  pure _ _ hm := .of_blind hm rfl rfl rfl
  halt _ _ hm := .of_blind hm rfl rfl rfl
  bind h hg m hm := (h m hm).bind hg

/-- A run between two changes of state. The second one can depend on how the run ended. -/
def around (enter : Machine → Machine) (leave : Bool → Machine → Machine) (body : Exec α) :
    Exec α := fun m =>
  match body (enter m) with
  | .ok a after => .ok a (leave true after)
  | .error halt after => .error halt (leave false after)

/-- Changes of state that do not mind the output. -/
theorem CutsAt.around {m : Machine} {x y : Exec α} {enter : Machine → Machine}
    (h : CutsAt limit position halt (enter m) x y) (leave : Bool → Machine → Machine)
    (henter : (enter m).limited limit = enter (m.limited limit))
    (hentered : (enter m).output = m.output)
    (hleave : ∀ ok (last : Machine), (leave ok last).limited limit = leave ok (last.limited limit))
    (hleft : ∀ ok (last : Machine), (leave ok last).output = last.output) :
    CutsAt limit position halt m (Exec.around enter leave x) (Exec.around enter leave y) := by
  have hfinal : (final (Exec.around enter leave y) m).output = (final y (enter m)).output := by
    unfold final Exec.around
    cases y (enter m) <;> exact hleft _ _
  have hsame : x (enter m) = y (enter m) →
      Exec.around enter leave x m = Exec.around enter leave y m := by
    intro hx
    unfold Exec.around
    rw [hx]
  obtain ⟨hunlimited, happends, hbeyond, hwithin, hcrossed⟩ := h
  rw [hentered] at happends hbeyond hcrossed
  refine ⟨?_, ?_, ?_, ?_, ?_⟩
  · rw [hfinal]
    exact hunlimited
  · rw [hfinal]
    exact happends
  · exact fun hlt => hsame (hbeyond hlt)
  · rw [hfinal]
    intro hle
    obtain ⟨hx, hlimited⟩ := hwithin hle
    refine ⟨hsame hx, ?_⟩
    unfold Exec.around
    rw [← henter, hlimited]
    cases y (enter m) <;> simp only [mapEnd, hleave]
  · rw [hfinal]
    intro hle hlt
    obtain ⟨place, last, hcut, hbytes, hhalts⟩ := hcrossed hle hlt
    refine ⟨place, leave false last, ?_, ?_, ?_, fun hne => hsame (hhalts.follows hne)⟩
    · unfold Exec.around
      rw [← henter, hcut]
    · rw [hleft, hbytes]
    · intro heq
      obtain ⟨halted, hx⟩ := hhalts.halts heq
      refine ⟨leave false halted, ?_⟩
      unfold Exec.around
      rw [hx]

theorem Cuts.inFrame {x y : Exec α} (h : Cuts limit position halt x y) (name : String)
    (kind : FrameKind) :
    Cuts limit position halt (inFrame name kind x) (inFrame name kind y) := by
  intro m hm
  have hentered := m.pushFrame_output name kind
  exact (h _ (by rw [hentered, hm])).around (fun _ => Machine.popFrame)
    (m.pushFrame_limited limit name kind) hentered (fun _ last => last.popFrame_limited limit)
    fun _ last => last.popFrame_output

theorem Cuts.inCall {x y : Exec α} (h : Cuts limit position halt x y) (name : String)
    (outer : Nat) : Cuts limit position halt (inCall name outer x) (inCall name outer y) := by
  intro m hm
  have hentered := m.pushCall_output name outer
  exact (h _ (by rw [hentered, hm])).around (fun _ => Machine.popCall)
    (m.pushCall_limited limit name outer) hentered (fun _ last => last.popCall_limited limit)
    fun _ last => last.popCall_output

/-! ## Operations -/

theorem cuts_load (name : String) (place : Position) :
    Cuts limit position halt (load name place) (load name place) := by
  intro m hm
  refine .of_blind hm rfl ?_ ?_
  · rw [final_load]
  · have hget : (m.limited limit).stack.get? name = m.stack.get? name := rfl
    unfold load
    simp only [bind_apply, get_apply, hget]
    cases (m.stack.get? name).bind (·.value) <;> rfl

/-- The stack is changed, whatever the output. -/
theorem cuts_modify (change : Stack → Stack) :
    Cuts limit position halt (modify fun m => { m with stack := change m.stack })
      (modify fun m => { m with stack := change m.stack }) :=
  fun _ hm => .of_blind hm rfl rfl rfl

theorem cuts_store (name : String) (v : Value) (place : Position) :
    Cuts limit position halt (store name v place) (store name v place) := by
  have hset : ∀ v : Value, Cuts limit position halt
      (modify fun m => { m with stack := m.stack.set name v })
      (modify fun m => { m with stack := m.stack.set name v }) :=
    fun v => cuts_modify (·.set name v)
  intro m hm
  cases htype : (m.stack.get? name).bind (·.type) with
  | none =>
    have hstore : ∀ m' : Machine, m'.stack = m.stack → store name v place m' =
        (modify fun m => { m with stack := m.stack.set name v } : Exec Unit) m' := by
      intro m' hm'
      unfold store
      simp only [bind_apply, get_apply, hm', htype]
      rfl
    exact (hset v m hm).congr (hstore m rfl) (hstore m rfl) (hstore _ rfl)
  | some type =>
    have hstore : ∀ m' : Machine, m'.stack = m.stack → store name v place m' =
        (coerce name type v place >>= fun v =>
          modify fun m => { m with stack := m.stack.set name v }) m' := by
      intro m' hm'
      unfold store
      simp only [bind_apply, get_apply, hm', htype]
    have hcoerce := coerce_rel (cuts_composes limit position halt) name type v place
    exact ((hcoerce m hm).bind hset).congr (hstore m rfl) (hstore m rfl) (hstore _ rfl)

theorem cuts_declare (name : String) (type : Ty) (v : Option Value) :
    Cuts limit position halt (declare name type v) (declare name type v) :=
  cuts_modify (·.declare name (some type) v)

/-- A limit only cuts off what evaluation and execution do with variables. -/
theorem cuts_operates (limit : Nat) (position : Position) (halt : Halt) :
    Operates .keep (Cuts limit position halt) (Cuts limit position halt) where
  evaluation := (cuts_composes limit position halt).combines
  execution := (cuts_composes limit position halt).combines
  weaken h := h
  load := cuts_load
  store := cuts_store
  declare name type := cuts_declare name type none
  fit name type := fit_rel (cuts_composes limit position halt) (cuts_declare name type)

theorem cuts_encloses (limit : Nat) (position : Position) (halt : Halt) :
    Encloses .keep (Cuts limit position halt) (Cuts limit position halt) where
  outside := (cuts_composes limit position halt).combines
  inside := (cuts_composes limit position halt).combines
  fit name type := fit_rel (cuts_composes limit position halt) (cuts_declare name type)
  inFrame name kind _ h := h.inFrame name kind

/-! ## Calls -/

theorem final_print {m : Machine} (hm : m.output.limit = none) (arguments : List Value)
    (place : Position) :
    Builtin.print.call arguments place m =
      .ok none { m with output := { m.output with bytes := m.printed arguments } } := by
  have hwrite := Output.write_of_limit_none hm (Builtin.line arguments)
  unfold Builtin.call write
  simp only [bind_apply, get_apply, set_apply, hwrite]
  rfl

/-- A line is written as far as the limit allows. -/
theorem print_limited (m : Machine) (limit : Nat) (arguments : List Value) (place : Position) :
    Builtin.print.call arguments place (m.limited limit) =
      if (m.printed arguments).size ≤ limit then
        .ok none (({ m with output := { m.output with bytes := m.printed arguments } } :
          Machine).limited limit)
      else .error (.fault ⟨.outputFull, place⟩)
        (({ m with output := { m.output with
          bytes := (m.printed arguments).extract 0 limit } } : Machine).limited limit) := by
  unfold Builtin.call write
  by_cases hfits : (m.printed arguments).size ≤ limit
  · have hwrite : (m.limited limit).output.write (Builtin.line arguments) =
        (true, { (m.limited limit).output with bytes := m.printed arguments }) := if_pos hfits
    simp only [bind_apply, get_apply, set_apply, hwrite, if_pos hfits]
    rfl
  · have hwrite : (m.limited limit).output.write (Builtin.line arguments) =
        (false, { (m.limited limit).output with
          bytes := (m.printed arguments).extract 0 limit }) := if_neg hfits
    simp only [bind_apply, get_apply, set_apply, hwrite, if_neg hfits]
    rfl

theorem cuts_print {call : String → List Value → Position → Exec (Option Value)} {name : String}
    {arguments : List Value} {place : Position} {m : Machine} (hm : m.output.limit = none)
    (hfound : m.stack.findFunction? name = none) (hname : Builtin.ofName? name = some .print)
    (hcall : call name arguments place m = Builtin.print.call arguments place m) :
    CutsAt limit position halt m
      (callUntil (Moment.Crosses limit position) halt call name arguments place)
      (Builtin.print.call arguments place) := by
  have hpassed : ¬ Moment.Crosses limit position (.calling name arguments place) m →
      callUntil (Moment.Crosses limit position) halt call name arguments place m =
        Builtin.print.call arguments place m :=
    fun hnot => (callUntil_apply hnot).trans hcall
  have hfinal : final (Builtin.print.call arguments place) m =
      { m with output := { m.output with bytes := m.printed arguments } } := by
    unfold final
    rw [final_print hm]
  have hcrosses : Moment.Crosses limit position (.calling name arguments place) m ↔
      place = position ∧ m.output.bytes.size ≤ limit ∧ limit < (m.printed arguments).size := by
    simp only [Moment.Crosses, hfound, hname, true_and]
  refine ⟨?_, ?_, ?_, ?_, ?_⟩
  · rw [hfinal]
    exact hm
  · rw [hfinal]
    exact ⟨_, rfl⟩
  · intro hlt
    refine hpassed fun h => ?_
    have hle := (hcrosses.mp h).2.1
    omega
  · rw [hfinal]
    intro hle
    refine ⟨hpassed fun h => ?_, ?_⟩
    · have hlt := (hcrosses.mp h).2.2
      exact absurd hle (Nat.not_le.mpr hlt)
    · rw [print_limited, if_pos hle, final_print hm]
      rfl
  · rw [hfinal]
    intro hle hlt
    refine ⟨place, _, by rw [print_limited, if_neg (Nat.not_le.mpr hlt)], rfl, ?_, ?_⟩
    · intro heq
      refine ⟨m, ?_⟩
      unfold callUntil
      rw [bind_apply, pass, if_pos (hcrosses.mpr ⟨heq.symm, hle, hlt⟩)]
    · intro hne
      exact hpassed fun h => hne (hcrosses.mp h).1.symm

section Parts

variable {eval eval' : Expr → Exec (Option Value)} {exec exec' : Statement → Exec Flow}
  (heval : ∀ e, Cuts limit position halt (eval e) (eval' e))
  (hexec : ∀ s, Cuts limit position halt (exec s) (exec' s))

include heval hexec

theorem cuts_callFunction (decl : FunctionDecl) (outer : Nat) (arguments : List Value)
    (place : Position) :
    Cuts limit position halt (callFunction eval exec decl outer arguments place)
      (callFunction eval' exec' decl outer arguments place) := by
  intro m hm
  have hfail : ∀ fault : RuntimeFault, CutsAt limit position halt m
      (fail fault place : Exec (Option Value)) (fail fault place) :=
    fun _ => .of_blind hm rfl rfl rfl
  -- The limit of calls is looked up in both states.
  have hdepths : (m.limited limit).maxCallDepth ≤ (m.limited limit).callDepth ↔
      m.maxCallDepth ≤ m.callDepth := Iff.rfl
  by_cases haccepts : decl.arity.accepts arguments.length
  · by_cases hdepth : m.maxCallDepth ≤ m.callDepth
    · refine (hfail (.recursionLimit m.maxCallDepth)).congr ?_ ?_ ?_ <;>
        simp only [callFunction_apply, if_pos haccepts, if_pos hdepth, if_pos (hdepths.mpr hdepth)]
      rfl
    · have hinside : Cuts limit position halt (inside eval exec decl arguments place)
          (inside eval' exec' decl arguments place) :=
        inside_keep (cuts_operates limit position halt) (fun e _ => heval e) (fun s _ => hexec s)
          arguments place
      refine (hinside.inCall decl.name outer m hm).congr ?_ ?_ ?_ <;>
        simp only [callFunction_apply, if_pos haccepts, if_neg hdepth,
          if_neg (mt hdepths.mp hdepth)]
  · refine (hfail (.argumentCount decl.name decl.arity arguments.length)).congr ?_ ?_ ?_ <;>
      simp only [callFunction_apply, if_neg haccepts]

/-- A call of `print` is where a run is cut off, and no other call. -/
theorem cuts_call (name : String) (arguments : List Value) (place : Position) :
    Cuts limit position halt
      (callUntil (Moment.Crosses limit position) halt (call eval exec) name arguments place)
      (call eval' exec' name arguments place) := by
  intro m hm
  cases hfound : m.stack.findFunction? name with
  | some found =>
    have hnot : ¬ Moment.Crosses limit position (.calling name arguments place) m := by
      simp only [Moment.Crosses, hfound, reduceCtorEq, false_and, and_false, not_false_eq_true]
    refine (cuts_callFunction heval hexec found.2 found.1 arguments place m hm).congr ?_ ?_ ?_
    · rw [callUntil_apply hnot, call_of_function hfound]
    · exact call_of_function hfound
    · exact call_of_function hfound
  | none =>
    cases hname : Builtin.ofName? name with
    | none =>
      have hnot : ¬ Moment.Crosses limit position (.calling name arguments place) m := by
        simp only [Moment.Crosses, hname, reduceCtorEq, false_and, and_false, not_false_eq_true]
      refine ((cuts_composes limit position halt).halt
        (.fault ⟨.unknownFunction name, place⟩) m hm).congr ?_ ?_ ?_
      · rw [callUntil_apply hnot, call_of_unknown hfound hname]
        rfl
      · exact call_of_unknown hfound hname
      · exact call_of_unknown hfound hname
    | some b =>
      by_cases hprint : b = .print
      · subst hprint
        refine (cuts_print hm hfound hname (call_of_builtin hfound hname)).congr rfl ?_ ?_
        · exact call_of_builtin hfound hname
        · exact call_of_builtin (m := m.limited limit) hfound hname
      · have hnot : ¬ Moment.Crosses limit position (.calling name arguments place) m := by
          simp only [Moment.Crosses, hname, Option.some.injEq, hprint, false_and, and_false,
            not_false_eq_true]
        have hsilent := silent_along (cuts_composes limit position halt).combines hprint arguments
          place
        refine (hsilent m hm).congr ?_ ?_ ?_
        · rw [callUntil_apply hnot, call_of_builtin hfound hname]
        · exact call_of_builtin hfound hname
        · exact call_of_builtin (m := m.limited limit) hfound hname

end Parts

/-! ## Runs -/

theorem pass_cuts {moment : Moment}
    (hmoment : ∀ name arguments place, moment ≠ .calling name arguments place) :
    Cuts limit position halt (pass (Moment.Crosses limit position) halt moment) (pure ()) := by
  intro m hm
  refine .of_blind hm (pass_apply ?_) rfl rfl
  cases moment with
  | calling name arguments place => exact absurd rfl (hmoment name arguments place)
  | _ => exact id

/-- A limit does nothing but cut off evaluation and execution. -/
theorem until_cuts (limit : Nat) (position : Position) (halt : Halt) (fuel : Nat) :
    (∀ e, Cuts limit position halt (evalUntil (Moment.Crosses limit position) halt fuel e)
      (eval fuel e)) ∧
    ∀ s, Cuts limit position halt (execUntil (Moment.Crosses limit position) halt fuel s)
      (exec fuel s) := by
  have hcomposes := cuts_composes limit position halt
  induction fuel with
  | zero => exact ⟨fun _ => hcomposes.halt _, fun _ => hcomposes.halt _⟩
  | succ fuel ih =>
    obtain ⟨heval, hexec⟩ := ih
    constructor
    · intro e
      exact watched_rel hcomposes (pass_cuts nofun) (pass_cuts nofun)
        (evalStep_keep hcomposes.combines cuts_load (cuts_call heval hexec) fun part _ => heval part)
    · intro s
      refine watched_rel hcomposes (pass_cuts nofun) (pass_cuts nofun) ?_
      cases hs : s.isCompound with
      | true =>
        exact compoundStep_keep (cuts_encloses limit position halt) fuel hs (fun e _ => heval e)
          (fun s _ => hexec s) fun _ _ _ _ => hcomposes.halt _
      | false =>
        exact plainStep_keep (cuts_operates limit position halt) fuel hs (fun e _ => heval e)
          fun decl _ => cuts_modify (·.declareFunction decl)

/-- The frame of a program is around its statements. -/
theorem around_global (x : Exec Flow) :
    around (Machine.pushFrame "global" .global) (fun ok m => m.finish ok)
      (x >>= fun _ => pure ()) = fun m =>
        match x (m.pushFrame "global" .global) with
        | .ok _ after => .ok () (after.finish true)
        | .error halt after => .error halt (after.finish false) := by
  funext m
  unfold around
  rw [bind_apply]
  cases x (m.pushFrame "global" .global) <;> rfl

/-- Nor does it do anything else to a program. -/
theorem program_cuts (limit : Nat) (position : Position) (halt : Halt) (fuel : Nat)
    (p : Program) :
    Cuts limit position halt (programUntil (Moment.Crosses limit position) halt fuel p)
      (program fuel p) := by
  have hblock := block_keep (cuts_composes limit position halt).combines
    fun s (_ : s ∈ p) => (until_cuts limit position halt fuel).2 s
  have hdone := (cuts_composes limit position halt).bind hblock fun _ =>
    (cuts_composes limit position halt).pure ()
  intro m hm
  have hentered := m.pushFrame_output "global" .global
  have hprogram := (hdone _ (by rw [hentered, hm])).around (fun ok m => m.finish ok)
    (m.pushFrame_limited limit "global" .global) hentered
    (fun ok last => last.finish_limited limit ok) fun ok last => last.finish_output ok
  rw [around_global, around_global] at hprogram
  exact hprogram

end Cuts

end Exec

/-! ## Programs -/

/-- The end of a run whose output has a limit, compared with that of the same run without one.
`crosses` says of which positions the run without a limit comes to a call of `print` there, whose
line passes the limit. -/
structure Truncates (limit : Nat) (crosses : Position → Prop)
    (whole cut : Option Failure × Machine) : Prop where
  output : cut.2.output.bytes =
    whole.2.output.bytes.extract 0 (min limit whole.2.output.bytes.size)
  /-- If the whole output fits, both runs end alike, in the same state but for the limit. -/
  within : whole.2.output.bytes.size ≤ limit → cut = (whole.1, whole.2.limited limit)
  /-- If not, the run with the limit has failed to write a line: the only one that passes it. -/
  crossed : limit < whole.2.output.bytes.size → ∃ position,
    cut.1 = some (.running ⟨.outputFull, position⟩) ∧ ∀ place, crosses place ↔ place = position
  ends : whole.1 ≠ some .outOfFuel → cut.1 ≠ some .outOfFuel
  wholeFrames : whole.2.stack.frames = #[]
  cutFrames : cut.2.stack.frames = #[]

namespace Exec

/-- A run that goes the plain way whatever it would halt with does not come to the moment. -/
theorem not_meets_of_eq {moments : Moment → Machine → Prop} {fuel : Nat} {p : Program}
    {m : Machine} (h : ∀ halt, programUntil moments halt fuel p m = program fuel p m) :
    ¬ Meets moments fuel p m := by
  intro hmeets
  obtain ⟨_, hexhausted⟩ := hmeets .outOfFuel
  obtain ⟨_, hfault⟩ := hmeets (.fault ⟨.assertionFailed, .start⟩)
  rw [h] at hexhausted hfault
  rw [hexhausted] at hfault
  cases hfault

section Program

variable {limit fuel : Nat} {p : Program} {m : Machine} (hm : m.output.limit = none)

include hm

/-- If all that is written fits, the limit does nothing. -/
theorem executeFor_limited (hfits : (m.executeFor fuel p).2.output.bytes.size ≤ limit) :
    (m.limited limit).executeFor fuel p =
      ((m.executeFor fuel p).1, (m.executeFor fuel p).2.limited limit) := by
  rw [m.executeFor_state] at hfits
  obtain ⟨-, hrun⟩ := (program_cuts limit .start .outOfFuel fuel p m hm).within hfits
  unfold Machine.executeFor
  rw [hrun]
  cases program fuel p m <;> rfl

/-- If not all of it fits, the run stops at the one call of `print` whose line does not. -/
theorem executeFor_crossed (hstart : m.output.bytes.size ≤ limit)
    (hlt : limit < (m.executeFor fuel p).2.output.bytes.size) : ∃ place last,
      (m.limited limit).executeFor fuel p = (some (.running ⟨.outputFull, place⟩), last) ∧
      last.output.bytes = (m.executeFor fuel p).2.output.bytes.extract 0 limit ∧
      ∀ position, Meets (Moment.Crosses limit position) fuel p m ↔ position = place := by
  rw [m.executeFor_state] at hlt ⊢
  have hcrossed := fun position halt =>
    (program_cuts limit position halt fuel p m hm).crossed hstart hlt
  obtain ⟨place, last, hrun, hbytes, -⟩ := hcrossed .start .outOfFuel
  refine ⟨place, last, ?_, hbytes, ?_⟩
  · unfold Machine.executeFor
    rw [hrun]
    rfl
  -- Wherever the run without the limit is made to halt, the one with it stops at the same place.
  have hhalts : ∀ position halt, HaltsIf (position = place) halt m
      (programUntil (Moment.Crosses limit position) halt fuel p) (program fuel p) := by
    intro position halt
    obtain ⟨place', last', hrun', -, hhalts⟩ := hcrossed position halt
    rw [hrun] at hrun'
    cases hrun'
    exact hhalts
  intro position
  by_cases heq : position = place
  · exact ⟨fun _ => heq, fun _ halt => (hhalts position halt).halts heq⟩
  · have hnot := not_meets_of_eq fun halt => (hhalts position halt).follows heq
    exact ⟨fun hmeets => absurd hmeets hnot, fun h => absurd h heq⟩

end Program

end Exec

open Exec in
/-- A limit on the output only cuts a run off. Of every program, checked or not, and every limit,
compare the run without the limit with that under it. The output of the second is as much of that of
the first as fits. If all fits, the second does exactly what the first does. If not, it stops with a
fault at the position of the one call of `print` whose line passes the limit. It ends if the first
does, and neither leaves a frame. -/
theorem limit_truncates (limit maxCallDepth fuel : Nat) (p : Program) :
    Truncates limit
      (fun position => Meets (Moment.Crosses limit position) fuel p (.initial maxCallDepth none))
      ((Machine.initial maxCallDepth none).executeFor fuel p)
      ((Machine.initial maxCallDepth (some limit)).executeFor fuel p) := by
  have hframes : ∀ outputLimit,
      ((Machine.initial maxCallDepth outputLimit).executeFor fuel p).2.stack.frames = #[] := by
    intro outputLimit
    rw [Machine.executeFor_state]
    exact (program_confines .outOfFuel fuel p _ (.empty rfl)).2.unwound.empty rfl
  have hstart : (Machine.initial maxCallDepth none).output.limit = none := rfl
  by_cases hfits : ((Machine.initial maxCallDepth none).executeFor fuel p).2.output.bytes.size ≤
      limit
  · have hcut : (Machine.initial maxCallDepth (some limit)).executeFor fuel p = _ :=
      executeFor_limited hstart hfits
    refine { output := ?_, within := fun _ => hcut, crossed := ?_, ends := ?_
             wholeFrames := hframes _, cutFrames := hframes _ }
    · rw [hcut, Nat.min_eq_right hfits, ByteArray.extract_zero_size]
      rfl
    · exact fun hlt => absurd hfits (Nat.not_le.mpr hlt)
    · rw [hcut]
      exact id
  · have hlt := Nat.not_le.mp hfits
    obtain ⟨place, last, hrun, hbytes, hmeets⟩ := executeFor_crossed hstart (Nat.zero_le _) hlt
    have hcut : (Machine.initial maxCallDepth (some limit)).executeFor fuel p = _ := hrun
    refine { output := ?_, within := fun hle => absurd hle hfits, crossed := ?_, ends := ?_
             wholeFrames := hframes _, cutFrames := hframes _ }
    · rw [hcut, Nat.min_eq_left (Nat.le_of_lt hlt)]
      exact hbytes
    · exact fun _ => ⟨place, by rw [hcut], hmeets⟩
    · rw [hcut]
      exact fun _ => nofun

open Exec in
/-- The second line is written in part. -/
theorem limit_truncates_line : ∃ ts p, tokenize "print(1); print(23, 4);" = .ok ts ∧
    parse ts = .ok p ∧
    ((Machine.initial 100 none).executeFor 20 p).2.output.bytes = "1\n23 4\n".toUTF8 ∧
    ((Machine.initial 100 (some 4)).executeFor 20 p).2.output.bytes = "1\n23".toUTF8 ∧
    ((Machine.initial 100 (some 4)).executeFor 20 p).1 =
      some (.running ⟨.outputFull, ⟨1, 11⟩⟩) ∧
    Meets (Moment.Crosses 4 ⟨1, 11⟩) 20 p (.initial 100 none) := by
  obtain ⟨ts, p, htokenize, hparse, hrun⟩ := exists_read "print(1); print(23, 4);" rfl
    (fun p => ((Machine.initial 100 none).executeFor 20 p).2.output.bytes = "1\n23 4\n".toUTF8 ∧
      ((Machine.initial 100 (some 4)).executeFor 20 p).1 =
        some (.running ⟨.outputFull, ⟨1, 11⟩⟩)) (by decide +kernel)
  obtain ⟨hwhole, hfault⟩ := of_decide_eq_true hrun
  have hcut := limit_truncates 4 100 20 p
  have hsize : 4 < ((Machine.initial 100 none).executeFor 20 p).2.output.bytes.size := by
    rw [hwhole]
    decide
  obtain ⟨position, hposition, hmeets⟩ := hcut.crossed hsize
  rw [hfault] at hposition
  cases hposition
  refine ⟨ts, p, htokenize, hparse, hwhole, ?_, hfault, (hmeets _).mpr rfl⟩
  rw [hcut.output, hwhole]
  decide

end ScopedScript
