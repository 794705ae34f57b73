import ScopedScript.Proofs.Run.Arithmetic
import ScopedScript.Proofs.Run.Rounds
import ScopedScript.Proofs.Text.Slice

/-!
# Characters of a text

An access, a slice, the length of a text and a loop over it all count the same positions. So what is
cut in two at any position is put together again, a slice is as long as its places lie apart, a
character is a slice of length one, and what a loop visits makes up the text.
-/

namespace ScopedScript

open Integer (Fits)

/-! ## Characters and slices -/

/-- Characters and slices of a text of a given length are those at the positions that they name,
which are counted from the start, or from the end if they are negative. -/
structure Text.Positions (s : String) : Prop where
  forward : ∀ i : Int64, 0 ≤ i.toInt → i.toInt < s.length →
    ∃ c, s.toList[i.toInt.toNat]? = some c ∧
      Exec.character s i = .ok (.str (String.singleton c))
  backward : ∀ i : Int64, -s.length ≤ i.toInt → i.toInt < 0 →
    ∃ c, s.toList[(s.length + i.toInt).toNat]? = some c ∧
      Exec.character s i = .ok (.str (String.singleton c))
  beyond : ∀ i : Int64, i.toInt < -s.length ∨ s.length ≤ i.toInt →
    Exec.character s i = .error (.indexOutOfBounds s.length i)
  slice : ∀ i j : Int64, (Text.slice s i j).toList =
    Text.between s.toList (Text.place s.length i.toInt) (Text.place s.length j.toInt)
  /-- No sum by which a place is computed leaves the words. -/
  sum : ∀ i : Int64, ∃ start, Text.startSteps? s.length i = some start ∧
    start.toInt = if i.toInt < 0 then i.toInt + s.length else i.toInt

/-- A length that fits does not matter to what an access finds. -/
theorem Exec.character_of_fits {s : String} (hs : Fits s.length) (i : Int64) :
    Exec.character s i = match Text.charAt? s i with
      | some c => .ok (.str (String.singleton c))
      | none => .error (.indexOutOfBounds s.length i) := by
  obtain ⟨n, -, hn⟩ := Integer.exists_fit?_of_fits hs
  rw [Exec.character, ← hn, Outcome.ofInt_toInt]
  rfl

theorem Text.positions {s : String} (hs : Fits s.length) : Text.Positions s where
  forward i hlow hhigh := by
    obtain ⟨c, hget, hc⟩ := exists_charAt? s i (by omega) hhigh
    rw [fromStart, if_neg (by omega)] at hget
    exact ⟨c, hget, by rw [Exec.character_of_fits hs, hc]⟩
  backward i hlow hhigh := by
    obtain ⟨c, hget, hc⟩ := exists_charAt? s i hlow (by omega)
    rw [fromStart, if_pos hhigh, Int.add_comm] at hget
    exact ⟨c, hget, by rw [Exec.character_of_fits hs, hc]⟩
  beyond i hi := by rw [Exec.character_of_fits hs, (charAt?_eq_none_iff s i).mpr hi]
  slice := toList_slice_eq s
  sum := startSteps?_eq hs

/-! ## Expressions -/

/-- The places of what stands in the law of cutting. -/
structure CutTokens where
  start : Token
  before : Token
  length : Token
  behind : Token
  sum : Token
  equation : Token

/-- What is cut in two is put together again: `e[0:k] + e[k:len(e)] == e`. -/
def Expr.cutLaw (e k : Expr) (tokens : CutTokens) : Expr :=
  .binary
    (.binary (.slice e (.literal (.int 0) tokens.start) k tokens.before)
      .add (.slice e k (.call "len" [e] false tokens.length) tokens.behind) tokens.sum)
    .equal e tokens.equation

/-- The places of what stands in the law of characters. -/
structure SingleTokens where
  character : Token
  one : Token
  next : Token
  slice : Token
  equation : Token

/-- A character is a slice of length one: `e[i] == e[i:i + 1]`. -/
def Expr.singleLaw (e i : Expr) (tokens : SingleTokens) : Expr :=
  .binary (.index e i tokens.character)
    .equal (.slice e i (.binary i .add (.literal (.int 1) tokens.one) tokens.next) tokens.slice)
    tokens.equation

namespace Exec

section Access

variable {fuel : Nat} {e x y : Expr} (token : Token) {s : String} {i j : Int64} {m : Machine}
  (he : eval fuel e m = .ok (some (.str s)) m) (hx : eval fuel x m = .ok (some (.int i)) m)

include he

theorem base_apply (position : Position) : base (eval fuel) e position m = .ok s m := by
  rw [base, bind_apply, value_of_eval he]
  rfl

/-- The length of a text. -/
theorem eval_length (hlen : m.stack.findFunction? "len" = none) {n : Int64}
    (hn : n.toInt = s.length) (isStatement : Bool) :
    eval (fuel + 1) (.call "len" [e] isStatement token) m = .ok (some (.int n)) m := by
  have hvalues : values (eval fuel) [e] m = .ok [.str s] m := by
    rw [values, bind_apply, value_of_eval he]
    rfl
  have hlength : Builtin.length (.str s) = .ok (.int n) := by
    rw [Builtin.length, ← hn, Outcome.ofInt_toInt]
  simp only [eval_succ, evalStep, bind_apply, hvalues]
  rw [call_of_builtin hlen (b := .len) rfl]
  simp only [Builtin.call, hlength]
  rfl

include hx

/-- A character of a text. -/
theorem eval_index : eval (fuel + 1) (.index e x token) m =
    (located token.position (character s i) >>= fun v => pure (some v)) m := by
  simp only [eval_succ, evalStep, bind_apply, base_apply he, integer_apply (value_of_eval hx)]

/-- A slice of a text. -/
theorem eval_slice (hy : eval fuel y m = .ok (some (.int j)) m) :
    eval (fuel + 1) (.slice e x y token) m = .ok (some (.str (Text.slice s i j))) m := by
  simp only [eval_succ, evalStep, bind_apply, base_apply he, integer_apply (value_of_eval hx),
    integer_apply (value_of_eval hy)]
  rfl

end Access

/-- Where something has a value, a constant has its own. -/
theorem literal_of_eval {fuel : Nat} {x : Expr} {v : Option Value} {m after : Machine}
    (h : eval fuel x m = .ok v after) (constant : Value) (token : Token) :
    eval fuel (.literal constant token) m = .ok (some constant) m := by
  cases fuel with
  | zero => cases h
  | succ fuel => rfl

theorem apply_equal_text (s : String) :
    BinaryOp.equal.apply (.str s) (.str s) = .ok (.bool true) := by
  simp [BinaryOp.apply, BinaryOp.comparison, Value.equal]

section Laws

variable {fuel : Nat} {e x : Expr} {s : String} {i : Int64} {m : Machine}
  (he : eval fuel e m = .ok (some (.str s)) m) (hx : eval fuel x m = .ok (some (.int i)) m)

include he hx

theorem eval_cutLaw (hs : Fits s.length) (hlen : m.stack.findFunction? "len" = none)
    (tokens : CutTokens) : eval (fuel + 4) (e.cutLaw x tokens) m = .ok (some (.bool true)) m := by
  have hmore : ∀ extra, eval (fuel + extra) e m = .ok (some (.str s)) m :=
    fun extra => eval_of_le (Nat.le_add_right _ _) he
  have hposition : eval (fuel + 1) x m = .ok (some (.int i)) m := eval_of_le (Nat.le_succ _) hx
  obtain ⟨n, -, hn⟩ := Integer.exists_fit?_of_fits hs
  have hlength := eval_length tokens.length he hlen hn false
  have hbefore := eval_slice tokens.before (hmore 1)
    (show eval (fuel + 1) (.literal (.int 0) tokens.start) m = .ok (some (.int 0)) m from rfl)
    hposition
  have hbehind := eval_slice tokens.behind (hmore 1) hposition hlength
  have hjoin : BinaryOp.add.apply (.str (Text.slice s 0 i)) (.str (Text.slice s i n)) =
      .ok (.str (Text.slice s 0 i ++ Text.slice s i n)) := rfl
  have hsum := eval_binary_ok tokens.sum rfl hbefore hbehind hjoin
  rw [Text.slice_append s rfl hn] at hsum
  exact eval_binary_ok tokens.equation rfl hsum (hmore 3) (apply_equal_text s)

theorem eval_singleLaw (hs : Fits s.length) (hlow : -s.length ≤ i.toInt)
    (hhigh : i.toInt < s.length) (hlast : i.toInt ≠ -1) (tokens : SingleTokens) :
    eval (fuel + 3) (e.singleLaw x tokens) m = .ok (some (.bool true)) m := by
  have htext : eval (fuel + 1) e m = .ok (some (.str s)) m := eval_of_le (Nat.le_succ _) he
  have hposition : eval (fuel + 1) x m = .ok (some (.int i)) m := eval_of_le (Nat.le_succ _) hx
  have hfits : Fits (i.toInt + 1) := by
    have := Integer.fits_toInt i
    unfold Fits at *
    omega
  obtain ⟨j, -, hj⟩ := Integer.exists_fit?_of_fits hfits
  have hnext : BinaryOp.add.apply (.int i) (.int 1) = .ok (.int j) := by
    rw [← Outcome.ofInt_toInt, hj]
    rfl
  have hsum := eval_binary_ok tokens.next rfl hx
    (show eval fuel (.literal (.int 1) tokens.one) m = .ok (some (.int 1)) m from
      literal_of_eval hx _ _) hnext
  obtain ⟨c, -, hc⟩ := Text.exists_charAt? s i hlow hhigh
  have hcharacter := eval_index tokens.character htext hposition
  rw [character_of_fits hs, hc] at hcharacter
  have hslice := eval_slice tokens.slice htext hposition hsum
  rw [Text.slice_eq_singleton s i hj hlast hc] at hslice
  exact eval_binary_ok tokens.equation rfl hcharacter hslice (apply_equal_text _)

end Laws

/-! ## What expressions make of a text -/

/-- Expressions make of a text what its positions say, given one that stands for the text. -/
structure Accesses (s : String) (e : Expr) (fuel : Nat) (m : Machine) : Prop where
  index : ∀ x i token, eval fuel x m = .ok (some (.int i)) m →
    eval (fuel + 1) (.index e x token) m = match character s i with
      | .ok v => .ok (some v) m
      | .error fault => .error (.fault ⟨fault, token.position⟩) m
  slice : ∀ x y i j token, eval fuel x m = .ok (some (.int i)) m →
    eval fuel y m = .ok (some (.int j)) m →
    eval (fuel + 1) (.slice e x y token) m = .ok (some (.str (Text.slice s i j))) m
  length : m.stack.findFunction? "len" = none → ∀ x y i j token call,
    eval fuel x m = .ok (some (.int i)) m → eval fuel y m = .ok (some (.int j)) m →
    ∃ n : Int64, n.toInt =
        max 0 (Text.place s.length j.toInt - Text.place s.length i.toInt) ∧
      eval (fuel + 2) (.call "len" [.slice e x y token] false call) m = .ok (some (.int n)) m
  cut : m.stack.findFunction? "len" = none → ∀ x i tokens,
    eval fuel x m = .ok (some (.int i)) m →
    eval (fuel + 4) (e.cutLaw x tokens) m = .ok (some (.bool true)) m
  /-- A character is a slice of length one, but for the last one counted from the end. -/
  single : ∀ x i tokens, eval fuel x m = .ok (some (.int i)) m →
    -s.length ≤ i.toInt → i.toInt < s.length → i.toInt ≠ -1 →
    eval (fuel + 3) (e.singleLaw x tokens) m = .ok (some (.bool true)) m

theorem accesses {s : String} (hs : Fits s.length) {e : Expr} {fuel : Nat} {m : Machine}
    (he : eval fuel e m = .ok (some (.str s)) m) : Accesses s e fuel m where
  index x i token hx := by
    rw [eval_index token he hx]
    cases character s i <;> rfl
  slice x y i j token hx hy := eval_slice token he hx hy
  length hlen x y i j token call hx hy := by
    have hfits : Fits (Text.slice s i j).length := by
      have := Text.clamp_le s.length j
      rw [Text.length_slice]
      unfold Fits at *
      omega
    obtain ⟨n, -, hn⟩ := Integer.exists_fit?_of_fits hfits
    refine ⟨n, hn.trans (Text.length_slice_eq s i j), ?_⟩
    exact eval_length call (eval_slice token he hx hy) hlen hn false
  cut hlen x i tokens hx := eval_cutLaw he hx hs hlen tokens
  single x i tokens hx hlow hhigh hlast := eval_singleLaw he hx hs hlow hhigh hlast tokens

/-! ## Loops -/

/-- A loop over a text visits its characters. -/
theorem sequence_of_text {eval : Expr → Exec (Option Value)} {e : Expr} {s : String}
    {m after : Machine} (hrange : e.isRange = false) (h : value eval e m = .ok (.str s) after) :
    sequence eval e m = .ok (.characters s.toList) after := by
  cases e with
  | range | steppedRange => cases hrange
  | _ =>
    simp only [sequence, bind_apply, h]
    rfl

/-- A range has no value. -/
theorem isRange_of_eval {fuel : Nat} {e : Expr} {v : Value} {m after : Machine}
    (h : value (Exec.eval fuel) e m = .ok v after) : e.isRange = false := by
  cases fuel with
  | zero => cases h
  | succ fuel =>
    cases e with
    | range | steppedRange => cases h
    | _ => rfl

end Exec

/-- The characters of a text make it up. -/
theorem join_singletons (cs : List Char) :
    String.join (cs.map String.singleton) = String.ofList cs := by
  apply String.toList_injective
  simp [String.toList_join, List.flatMap_map]

/-- The values that a loop visits make up the text. -/
theorem Sequence.join_characters (s : String) :
    String.join ((Sequence.characters s.toList).toList.map Value.text) = s := by
  rw [toList, List.map_map]
  exact (join_singletons s.toList).trans String.ofList_toList

namespace Exec

/-- The values with which rounds over a text begin make up the text, as far as there are rounds. -/
theorem visited_characters (fuel : Nat) (d : Declarator) (body : List Statement) (s : String)
    {m : Machine} (hm : 0 < m.stack.depth) :
    let ran := tracedRounds (exec fuel) d .str body (Sequence.characters s.toList).toList m
    ∃ visited : List String, ran.1.map (valueOf? d.name) = visited.map (some ∘ .str) ∧
      (∀ piece ∈ visited, piece.length = 1) ∧ (∃ rest, String.join visited ++ rest = s) ∧
      (String.join visited = s ∨
        ∃ last ∈ ran.1.getLast?, Leaves (block (exec fuel) body last)) := by
  intro ran
  have hvalues : (Sequence.characters s.toList).toList.map (·.coerce? .str) =
      (s.toList.map String.singleton).map (some ∘ .str) := by
    simp [Sequence.toList, Value.coerce?, Value.type]
  have hprefix := valueOf_tracedRounds fuel d .str body (Sequence.characters s.toList).toList hm
  rw [hvalues] at hprefix
  have hvisited := List.prefix_iff_eq_take.mp hprefix
  rw [← List.map_take, ← List.map_take, List.length_map] at hvisited
  refine ⟨_, hvisited, ?_, ⟨String.ofList (s.toList.drop ran.1.length), ?_⟩, ?_⟩
  · intro piece hpiece
    obtain ⟨c, -, rfl⟩ := List.mem_map.mp hpiece
    exact String.length_singleton
  · rw [join_singletons, ← String.ofList_append, List.take_append_drop, String.ofList_toList]
  · obtain hall | hleft | ⟨v, after, hv, hunfit, -⟩ :=
      length_tracedRounds fuel d .str body (Sequence.characters s.toList).toList m
    · have hcount : (Sequence.characters s.toList).toList.length = s.toList.length := by
        rw [Sequence.toList, List.length_map]
      rw [hcount] at hall
      left
      rw [join_singletons, List.take_of_length_le hall.ge, String.ofList_toList]
    · exact .inr hleft
    · obtain ⟨c, -, rfl⟩ := List.mem_map.mp (List.mem_of_getElem? hv)
      cases hunfit

end Exec

/-! ## One reference -/

open Exec in
/-- Characters, slices, lengths and loops agree on the positions of a text whose length is a word. A
character is that at its position, counted from the start or from the end, and there is none beyond;
a slice is the characters between the places of its bounds, and no sum by which a place is computed
leaves the words. Expressions that stand for a text and for positions follow suit: what is cut in
two at any position is put together again, a slice is as long as its places lie apart, and a
character is the slice of length one at its position, but for the last one counted from the end. A
loop over a text visits characters that make it up. If its variable holds texts, its rounds begin
with these values in their order, and all of them are visited unless a body leaves the loop. -/
theorem text_positions_agree {s : String} (hs : Fits s.length) :
    Text.Positions s ∧
    (∀ (e : Expr) (fuel : Nat) (m : Machine), eval fuel e m = .ok (some (.str s)) m →
      ∀ more, fuel ≤ more → Accesses s e more m) ∧
    String.join ((Sequence.characters s.toList).toList.map Value.text) = s ∧
    ∀ (fuel : Nat) (e : Expr) (m entered : Machine),
      value (eval fuel) e m = .ok (.str s) entered →
      sequence (eval fuel) e m = .ok (.characters s.toList) entered ∧
      ∀ (loopVariable : VarDecl) (d : Declarator) (ds : List Declarator) (body : List Statement)
        (token : Token), loopVariable.declarators = d :: ds → loopVariable.declared.type = .str →
      let rounds := tracedRounds (exec fuel) d .str body (Sequence.characters s.toList).toList
      let begun := entered.pushFrame "for" .forLoop
      exec (fuel + 1) (.forLoop loopVariable e body token) m =
        inFrame "for" .forLoop (fun m => (rounds m).2) entered ∧
      ∃ visited : List String,
        (rounds begun).1.map (valueOf? d.name) = visited.map (some ∘ .str) ∧
        (∀ piece ∈ visited, piece.length = 1) ∧ (∃ rest, String.join visited ++ rest = s) ∧
        (String.join visited = s ∨
          ∃ last ∈ (rounds begun).1.getLast?, Leaves (block (exec fuel) body last)) := by
  refine ⟨Text.positions hs, fun e fuel m he more hle => accesses hs (eval_of_le hle he),
    Sequence.join_characters s, fun fuel e m entered h => ?_⟩
  have hsequence := sequence_of_text (isRange_of_eval h) h
  refine ⟨hsequence, fun loopVariable d ds body token hd htype => ?_⟩
  intro rounds begun
  have hdepth : 0 < begun.stack.depth := depth_pushFrame_pos entered _ _
  have hloop := forLoop_of_sequence (exec fuel) hsequence hd body token.position
  rw [htype] at hloop
  exact ⟨hloop, visited_characters fuel d body s hdepth⟩

open Exec in
/-- A text of four characters in seven bytes. -/
theorem text_positions_agree_wide :
    Exec.character "aé→b" (-2) = .ok (.str "→") ∧
    Exec.character "aé→b" 4 = .error (.indexOutOfBounds 4 4) ∧
    (Text.slice "aé→b" (-3) 100).toList = ['é', '→', 'b'] ∧
    ∀ (token : Token) (tokens : CutTokens) (m : Machine), m.stack.findFunction? "len" = none →
      eval 5 ((Expr.literal (.str "aé→b") token).cutLaw
        (.literal (.int Int64.minValue) token) tokens) m = .ok (some (.bool true)) m := by
  obtain ⟨hpositions, haccesses, -, -⟩ := text_positions_agree (s := "aé→b") (by decide)
  refine ⟨?_, hpositions.beyond 4 (by decide), ?_, fun token tokens m hlen => ?_⟩
  · obtain ⟨c, hget, hc⟩ := hpositions.backward (-2) (by decide) (by decide)
    cases hget
    exact hc
  · rw [hpositions.slice]
    decide
  · have hlaws := haccesses (.literal (.str "aé→b") token) 1 m rfl 1 (Nat.le_refl 1)
    exact hlaws.cut hlen (.literal (.int Int64.minValue) token) _ tokens rfl

end ScopedScript
