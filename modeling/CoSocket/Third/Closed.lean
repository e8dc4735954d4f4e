import CoSocket.Third.Cuts

/-!
# Third.Closed

What the parser does when it is done (`Silent`): after an error, or in `s_dead`, where it is behind a
message whose end the bytes show and after which the connection is not kept. Nothing is reported any
more, and of what is read only ends of lines are taken (`silent_calls`). A response that ends when
the connection does leaves the parser in `s_body_identity_eof`, where all that follows is body.
-/

namespace CoSocket
namespace Third

open Base Pieces

/-- There was an error, or the parser is in `s_dead`. -/
def Silent (p : Parser) : Prop := p.httpErrno ≠ .ok ∨ p.state = .dead

instance decidableSilent (p : Parser) : Decidable (Silent p) :=
  inferInstanceAs (Decidable (_ ∨ _))

def IsLineEnd (b : UInt8) : Prop := b = CR ∨ b = LF

theorem iterate_dead {p : Parser} (hs : p.state = .dead) (ch : UInt8) (rest : Bytes) :
    (IsLineEnd ch ∧ ∃ n, iterate p ch rest =
      ⟨{ p with nread := n }, [.advance [ch]], .next, rest⟩) ∨
      ∃ q acts, q.httpErrno ≠ .ok ∧ (acts = [] ∨ acts = [.advance [ch]]) ∧
        iterate p ch rest = ⟨q, acts, .error, ch :: rest⟩ := by
  have hheader : p.state.parsingHeader = true := by rw [hs]; rfl
  have hmany : (countHeaderSize p 1).state.readsMany = false := by
    show p.state.readsMany = false
    rw [hs]
    rfl
  have hhandle : handle (countHeaderSize p 1) ch = closed (countHeaderSize p 1) ch := by
    unfold handle
    rw [show (countHeaderSize p 1).state = .dead from hs]
  rw [iterate_header hheader, counted]
  split
  · exact .inr ⟨_, _, Errno.noConfusion, .inl rfl, rfl⟩
  · rw [dispatch_one hmany, hhandle, closed]
    split
    · rename_i hend
      exact .inl ⟨hend, _, rfl⟩
    · exact .inr ⟨_, _, Errno.noConfusion, .inr rfl, rfl⟩

/-- Where the loop in `s_dead` ends: nothing is reported, and only ends of lines are passed. -/
structure Run.Silent (data : Bytes) (r : Run) : Prop where
  events : r.events = []
  marks : r.marks = fun _ => none
  parser : Third.Silent r.parser
  outcome : r.outcome = .next ∨ r.outcome = .error
  passed : ∃ used, data = used ++ r.rest ∧ ∀ b ∈ used, IsLineEnd b
  done : r.outcome = .next → r.rest = []

theorem silent_loop {p : Parser} (hs : p.state = .dead) {rounds : Nat} {data : Bytes}
    (hlen : data.length ≤ rounds) : (loop rounds p (fun _ => none) data).Silent data := by
  induction rounds generalizing p data with
  | zero =>
    obtain rfl : data = [] := List.length_eq_zero_iff.mp (Nat.le_zero.mp hlen)
    exact ⟨rfl, rfl, .inr hs, .inl rfl, ⟨[], rfl, by simp⟩, fun _ => rfl⟩
  | succ rounds ih =>
    cases data with
    | nil => exact ⟨rfl, rfl, .inr hs, .inl rfl, ⟨[], rfl, by simp⟩, fun _ => rfl⟩
    | cons ch rest =>
      rcases iterate_dead hs ch rest with ⟨hend, n, hit⟩ | ⟨q, acts, hq, hacts, hit⟩
      · have hrest := ih (p := { p with nread := n }) hs (Nat.le_of_succ_le_succ hlen)
        obtain ⟨used, hused, hall⟩ := hrest.passed
        simp only [loop, hit]
        refine ⟨hrest.events, hrest.marks, hrest.parser, hrest.outcome, ⟨ch :: used, ?_, ?_⟩,
          hrest.done⟩
        · exact congrArg (ch :: ·) hused
        · intro b hb
          rcases List.mem_cons.mp hb with rfl | hb
          · exact hend
          · exact hall b hb
      · simp only [loop, hit]
        refine ⟨?_, ?_, .inl hq, .inr rfl, ⟨[], rfl, by simp⟩, by simp⟩
        · rcases hacts with rfl | rfl <;> rfl
        · rcases hacts with rfl | rfl <;> rfl

theorem silent_execute {p : Parser} (h : Silent p) (data : Bytes) :
    Silent (execute p data).parser ∧ (execute p data).events = [] ∧
      ∀ b ∈ data.take (execute p data).consumed, IsLineEnd b := by
  rw [execute]
  by_cases hok : p.httpErrno = .ok
  · have hs : p.state = .dead := h.resolve_left (not_not.mpr hok)
    rw [if_neg (not_not.mpr hok)]
    by_cases hnil : data = []
    · subst hnil
      rw [if_pos rfl, executeEof, hs]
      exact ⟨.inr hs, rfl, by simp⟩
    · rw [if_neg hnil]
      have hstart : startMarks p.state = fun _ => none := by
        rw [hs]
        funext k
        cases k <;> rfl
      rw [hstart]
      have hrun := silent_loop hs (Nat.le_refl data.length)
      generalize loop data.length p (fun _ => none) data = r at hrun ⊢
      obtain ⟨used, hused, hall⟩ := hrun.passed
      have htake : data.take (data.length - r.rest.length) = used := by
        rw [hused, List.length_append, Nat.add_sub_cancel, List.take_left]
      unfold finish
      rcases hrun.outcome with hout | hout
      · have hwhole : used = data := by
          rw [hused, hrun.done hout, List.append_nil]
        rw [hout]
        dsimp only
        rw [hrun.marks, if_pos (by simp), flush_none, hrun.events]
        refine ⟨hrun.parser, rfl, ?_⟩
        dsimp only
        rw [List.take_length, ← hwhole]
        exact hall
      · rw [hout]
        refine ⟨hrun.parser, hrun.events, ?_⟩
        dsimp only
        rw [htake]
        exact hall
  · rw [if_pos hok]
    exact ⟨.inl hok, rfl, by simp⟩

theorem calls_silent {p : Parser} (h : Silent p) (es : List Bytes) :
    List.Forall₂ (fun e r => r.events = [] ∧ ∀ b ∈ e.take r.consumed, IsLineEnd b) es
      (calls p es) := by
  induction es generalizing p with
  | nil => exact .nil
  | cons e es ih =>
    obtain ⟨hsilent, hevents, hused⟩ := silent_execute h e
    exact .cons ⟨hevents, hused⟩ (ih hsilent)

/-- When the parser has met an error or is in `s_dead`, no callback is made any more, whatever is read
and however often; of what is read only ends of lines are taken. -/
theorem silent_calls (type : ParserType) (ds : List Bytes)
    (h : Silent (feed (init type) ds).1) (es : List Bytes) :
    List.Forall₂ (fun e r => r.events = [] ∧ ∀ b ∈ e.take r.consumed, IsLineEnd b) es
      (calls (feed (init type) ds).1 es) :=
  calls_silent h es

theorem silent_calls_close :
    (execute (feed (init .both) [bytesOf "GET / HTTP/1.1\r\nConnection: close\r\n\r\n"]).1
      (bytesOf "GET / HTTP/1.1\r\n\r\n")).events = [] := by
  have h := silent_calls .both [bytesOf "GET / HTTP/1.1\r\nConnection: close\r\n\r\n"]
    (by decide +kernel) [bytesOf "GET / HTTP/1.1\r\n\r\n"]
  exact (List.forall₂_cons.mp h).1.1

end Third
end CoSocket
