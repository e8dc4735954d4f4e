import CoSocket.Third.Cuts

/-!
# Third.Single

The parser as a machine over single bytes. `byte` is what a call with one byte does, but for the
counting of header bytes, in one `switch` and without the loops over the buffer (`execute_byte`);
`Reads` is a run of it. In this form the reading of a text can be followed character by character.
-/

namespace CoSocket
namespace Third

open Base Pieces

def Parser.setNread (n : Nat) (p : Parser) : Parser := { p with nread := n }

@[simp] theorem Parser.setNread_state (n : Nat) (p : Parser) : (p.setNread n).state = p.state := rfl

@[simp] theorem Parser.setNread_nread (n : Nat) (p : Parser) : (p.setNread n).nread = n := rfl

/-! ## The machine -/

/-- One byte of a header name. -/
def fieldChar (p : Parser) (ch : UInt8) : Step :=
  if token ch ≠ 0 then headerFieldByte p ch
  else if ch = ascii ':' then .next { p with state := .headerValueDiscardWs } [.data .headerField]
  else .fail p .invalidHeaderToken

/-- One byte of a header value. -/
def valueChar (p : Parser) (ch : UInt8) : Step :=
  if ch = CR then .next { p with state := .headerAlmostDone } [.data .headerValue]
  else if ch = LF then .next { p with state := .headerValueLws } [.data .headerValue]
  else if !isHeaderChar ch then .fail p .invalidHeaderToken
  else if p.headerState = .general then .next p []
  else headerValueByte p ch

/-- One byte of a body of known length. -/
def bodyByte (p : Parser) (ch : UInt8) : Step :=
  let p := { p with contentLength := p.contentLength - 1 }
  if p.contentLength = 0 then
    (messageDone { p with state := .messageDone }).after [.mark .body, .dataThrough .body ch]
  else .next p [.mark .body]

def byte (p : Parser) (ch : UInt8) : Step :=
  match p.state with
  | .headerField => fieldChar p ch
  | .headerValue => valueChar p ch
  | .bodyIdentity => bodyByte p ch
  | _ => handle p ch

/-! ## The count does not matter -/

theorem headerFlag_nread (p : Parser) : (headerFlag p).nread = p.nread := by
  unfold headerFlag
  split <;> rfl

theorem headersDone_nread (p : Parser) (ch : UInt8) :
    (headersDone p ch).parser.nread ≤ p.nread := by
  unfold headersDone
  split
  · exact Nat.le_refl _
  · dsimp only
    repeat' split
    all_goals exact Nat.zero_le _

theorem headersAlmostDone_nread (p : Parser) (ch : UInt8) :
    (headersAlmostDone p ch).parser.nread ≤ p.nread := by
  unfold headersAlmostDone
  split
  · exact Nat.le_refl _
  split
  · exact Nat.le_refl _
  split
  · exact Nat.le_refl _
  · exact headersDone_nread _ ch

theorem headerFieldStart_nread (p : Parser) (ch : UInt8) :
    (headerFieldStart p ch).parser.nread ≤ p.nread := by
  unfold headerFieldStart
  split
  · exact Nat.le_refl _
  split
  · exact headersAlmostDone_nread _ ch
  split <;> exact Nat.le_refl _

theorem headerValueStart_nread (p : Parser) (ch : UInt8) :
    (headerValueStart p ch).parser.nread ≤ p.nread := by
  unfold headerValueStart
  dsimp only
  split
  · exact Nat.le_refl _
  · split <;> exact Nat.le_refl _
  · split <;> exact Nat.le_refl _
  all_goals exact Nat.le_refl _

/-- No state counts its own byte: that is done before. -/
theorem handle_nread (p : Parser) (ch : UInt8) : (handle p ch).parser.nread ≤ p.nread := by
  have hstart := headerFieldStart_nread { headerFlag p with state := .headerFieldStart } ch
  have hflag : ({ headerFlag p with state := .headerFieldStart } : Parser).nread = p.nread :=
    headerFlag_nread p
  rw [hflag] at hstart
  have hvalue := headerValueStart_nread { p with state := .headerValueStart } ch
  unfold handle
  split
  all_goals first
    | exact Nat.le_refl _
    | exact headerFieldStart_nread p ch
    | exact headerValueStart_nread p ch
    | exact headersAlmostDone_nread p ch
    | exact headersDone_nread p ch
    | skip
  all_goals
    dsimp only [closed, startReqOrRes, startReq, resOrRespH, startRes, startMessage, expect,
      firstHttpMajor, httpMajor, firstHttpMinor, nextHttpMinor, resHttpMinor, reqHttpMinor,
      resFirstStatusCode, resStatusCode, resStatusStart, resStatus, reqMethod, reqSpacesBeforeUrl,
      reqSchema, reqUrl, urlChar, reqHttpStart, headerValueDiscardWs, headerValueDiscardLws,
      headerValueLws, chunkSizeStart, chunkSize, chunkParameters, chunkSizeAlmostDone,
      chunkDataAlmostDone, chunkDataDone]
    repeat' split
  all_goals first
    | exact Nat.le_refl _
    | exact Nat.zero_le _
    | exact hstart
    | exact hvalue

theorem Step.eq_of_fewer {s t : Step} (h : s.Fewer t ∨ t.Fewer s) :
    s = { t with parser := t.parser.setNread s.parser.nread } := by
  obtain ⟨p, acts, outcome⟩ := s
  obtain ⟨q, acts', outcome'⟩ := t
  rcases h with ⟨rfl, rfl, k, -, hk⟩ | ⟨rfl, rfl, k, -, hk⟩
  · dsimp only at hk
    subst hk
    rfl
  · dsimp only at hk
    subst hk
    rfl

theorem handle_setNread {p : Parser} (hs : p.state ≠ .chunkSizeStart) (n : Nat) (ch : UInt8) :
    ∃ k ≤ n, handle (p.setNread n) ch =
      { handle p ch with parser := (handle p ch).parser.setNread k } := by
  refine ⟨_, handle_nread (p.setNread n) ch, Step.eq_of_fewer ?_⟩
  rcases Nat.le_total n p.nread with h | h
  · exact .inl (fewer_handle ⟨n, h, rfl⟩ ch hs)
  · have hfewer : Fewer p (p.setNread n) := ⟨p.nread, h, rfl⟩
    exact .inr (fewer_handle hfewer ch hs)

theorem fieldChar_setNread (p : Parser) (n : Nat) (ch : UInt8) :
    fieldChar (p.setNread n) ch =
      { fieldChar p ch with parser := (fieldChar p ch).parser.setNread n } := by
  unfold fieldChar
  split
  · exact headerFieldByte_nread p n ch
  split <;> rfl

theorem valueChar_setNread (p : Parser) (n : Nat) (ch : UInt8) :
    valueChar (p.setNread n) ch =
      { valueChar p ch with parser := (valueChar p ch).parser.setNread n } := by
  unfold valueChar
  split
  · rfl
  split
  · rfl
  split
  · rfl
  by_cases hgen : p.headerState = .general
  · rw [if_pos hgen]
    exact if_pos hgen
  · rw [if_neg hgen]
    exact (if_neg hgen).trans (headerValueByte_nread p n ch)

theorem bodyByte_last {p : Parser} (h : p.contentLength - 1 = 0) (ch : UInt8) :
    bodyByte p ch = (messageDone { p with contentLength := 0, state := .messageDone }).after
      [.mark .body, .dataThrough .body ch] := by
  unfold bodyByte
  dsimp only
  rw [if_pos h, h]

theorem bodyByte_more {p : Parser} (h : p.contentLength - 1 ≠ 0) (ch : UInt8) :
    bodyByte p ch = .next { p with contentLength := p.contentLength - 1 } [.mark .body] := by
  unfold bodyByte
  dsimp only
  rw [if_neg h]

theorem bodyByte_setNread (p : Parser) (n : Nat) (ch : UInt8) :
    bodyByte (p.setNread n) ch =
      { bodyByte p ch with parser := (bodyByte p ch).parser.setNread n } := by
  by_cases hlast : p.contentLength - 1 = 0
  · rw [bodyByte_last hlast, bodyByte_last (p := p.setNread n) hlast]
    rfl
  · rw [bodyByte_more hlast, bodyByte_more (p := p.setNread n) hlast]
    rfl

theorem byte_setNread {p : Parser} (hs : p.state ≠ .chunkSizeStart) (n : Nat) (ch : UInt8) :
    ∃ k ≤ n, byte (p.setNread n) ch =
      { byte p ch with parser := (byte p ch).parser.setNread k } := by
  unfold byte
  rw [Parser.setNread_state]
  split
  · exact ⟨n, Nat.le_refl n, fieldChar_setNread p n ch⟩
  · exact ⟨n, Nat.le_refl n, valueChar_setNread p n ch⟩
  · exact ⟨n, Nat.le_refl n, bodyByte_setNread p n ch⟩
  · exact handle_setNread hs n ch

/-! ## The call with one byte -/

/-- The callbacks of a call with the byte `ch`, if these are the acts of the state `s`. -/
def signals (s : State) (acts : List Action) (ch : UInt8) : List Event :=
  ((startMarks s).run (acts ++ [.advance [ch]])).2 ++
    ((startMarks s).run (acts ++ [.advance [ch]])).1.flush kinds

/-- The round does what the step says, and counts up to `n`. -/
structure Move.Does (mv : Move) (s : Step) (ch : UInt8) (n : Nat) : Prop where
  outcome : mv.outcome = s.outcome
  parser : ∃ k ≤ n, mv.parser = s.parser.setNread k
  run : ∀ m : Marks DataKind UInt8, m.run mv.acts = m.run (s.acts ++ [.advance [ch]])

theorem run_advance_nil (m : Marks DataKind UInt8) (as : List Action) :
    m.run (.advance [] :: as) = m.run as := by
  have hsame : (fun k => (m k).map (· ++ [])) = m := by
    funext k
    cases m k <;> simp
  simp only [Marks.run, Marks.act, hsame, List.nil_append]

theorem run_mark_advance_nil (m : Marks DataKind UInt8) (as : List Action) :
    m.run (.mark .body :: .advance [] :: as) = m.run (.mark .body :: as) := by
  rw [Marks.run, run_advance_nil]
  rfl

theorem headerFieldByte_acts (p : Parser) (ch : UInt8) : (headerFieldByte p ch).acts = [] := by
  unfold headerFieldByte
  dsimp only
  repeat' split
  all_goals rfl

theorem headerValueByte_acts (p : Parser) (ch : UInt8) : (headerValueByte p ch).acts = [] := by
  unfold headerValueByte
  dsimp only
  repeat' split
  all_goals rfl

theorem counted_room {p : Parser} {n : Nat} (h : p.nread + n ≤ HTTP_MAX_HEADER_SIZE)
    (acts : List Action) (rest : Bytes) (k : Parser → Move) :
    counted p n acts rest k = k (p.setNread (p.nread + n)) := by
  have hcount : countHeaderSize p n = p.setNread (p.nread + n) := by
    rw [countHeaderSize, Nat.mod_eq_of_lt (lt_of_le_of_lt h (by decide))]
    rfl
  rw [counted_eq (by rw [hcount]; exact h), hcount]

theorem does_fieldChar {p : Parser} (hn : p.nread + 1 ≤ HTTP_MAX_HEADER_SIZE) {ch : UInt8}
    (hok : (fieldChar p ch).outcome = .next) :
    (headerField p [ch]).Does (fieldChar p ch) ch (p.nread + 1) := by
  unfold fieldChar at hok ⊢
  unfold headerField headerFieldLoop
  by_cases ht : token ch = 0
  · rw [if_neg (not_not.mpr ht)] at hok ⊢
    rw [if_pos ht, fieldEnd_next rfl]
    by_cases hcolon : ch = ascii ':'
    · rw [if_pos hcolon]
      dsimp only [List.length_nil]
      rw [counted_room (n := 0) (p := p) (Nat.le_of_succ_le hn), if_pos hcolon]
      exact ⟨rfl, ⟨p.nread, Nat.le_succ _, rfl⟩, fun m => run_advance_nil m _⟩
    · rw [if_neg hcolon] at hok
      cases hok
  · rw [if_pos ht] at hok ⊢
    rw [if_neg ht]
    have hacts := headerFieldByte_acts p ch
    have hnread : (headerFieldByte p ch).parser.nread = p.nread :=
      congrArg (fun s => s.parser.nread) (headerFieldByte_nread p p.nread ch)
    generalize headerFieldByte p ch = s at hok hacts hnread ⊢
    obtain ⟨p', acts, outcome⟩ := s
    dsimp only at hok hacts hnread
    subst hok hacts
    rw [← hnread] at hn ⊢
    dsimp only [headerFieldLoop, Scan.pass]
    rw [fieldEnd_next rfl]
    dsimp only [List.length_singleton]
    rw [counted_room hn]
    exact ⟨rfl, ⟨_, Nat.le_refl _, rfl⟩, fun m => rfl⟩

theorem lineEnd_single {ch : UInt8} (h : ch ≠ CR ∧ ch ≠ LF) : lineEnd [ch] = ([ch], []) := by
  refine (lineEnd_cons h []).resolve_right ?_
  decide

theorem does_valueChar {p : Parser} (hn : p.nread + 1 ≤ HTTP_MAX_HEADER_SIZE) {ch : UInt8}
    (hok : (valueChar p ch).outcome = .next) :
    (headerValue p [ch]).Does (valueChar p ch) ch (p.nread + 1) := by
  unfold valueChar at hok ⊢
  unfold headerValue headerValueLoop
  by_cases hcr : ch = CR
  · rw [if_pos hcr, if_pos (.inl hcr), valueEnd_cons rfl rfl, if_pos hcr]
    dsimp only [List.length_nil]
    rw [counted_room (n := 0) (p := { p with state := .headerAlmostDone }) (Nat.le_of_succ_le hn)]
    exact ⟨rfl, ⟨p.nread, Nat.le_succ _, rfl⟩, fun m => run_advance_nil m _⟩
  rw [if_neg hcr] at hok ⊢
  by_cases hlf : ch = LF
  · rw [if_pos hlf, if_pos (.inr hlf), valueEnd_cons rfl rfl, if_neg hcr]
    dsimp only [List.length_nil]
    rw [counted_room (n := 0) (p := { p with state := .headerAlmostDone }) (Nat.le_of_succ_le hn),
      expect, if_neg (not_not.mpr hlf)]
    exact ⟨rfl, ⟨p.nread, Nat.le_succ _, rfl⟩, fun m => run_advance_nil m _⟩
  rw [if_neg hlf] at hok ⊢
  rw [if_neg (not_or.mpr ⟨hcr, hlf⟩)]
  by_cases hchar : (!isHeaderChar ch) = true
  · rw [if_pos hchar] at hok
    cases hok
  rw [if_neg hchar] at hok ⊢
  rw [if_neg hchar]
  by_cases hgen : p.headerState = .general
  · rw [if_pos hgen, if_pos hgen, lineEnd_single ⟨hcr, hlf⟩, valueEnd_nil rfl rfl]
    dsimp only [List.length_singleton]
    rw [counted_room hn]
    exact ⟨rfl, ⟨_, Nat.le_refl _, rfl⟩, fun m => rfl⟩
  · rw [if_neg hgen] at hok ⊢
    rw [if_neg hgen]
    have hacts := headerValueByte_acts p ch
    have hnread : (headerValueByte p ch).parser.nread = p.nread :=
      congrArg (fun s => s.parser.nread) (headerValueByte_nread p p.nread ch)
    generalize headerValueByte p ch = s at hok hacts hnread ⊢
    obtain ⟨p', acts, outcome⟩ := s
    dsimp only at hok hacts hnread
    subst hok hacts
    rw [← hnread] at hn ⊢
    dsimp only [headerValueLoop, Scan.pass]
    rw [valueEnd_nil rfl rfl]
    dsimp only [List.length_singleton]
    rw [counted_room hn]
    exact ⟨rfl, ⟨_, Nat.le_refl _, rfl⟩, fun m => rfl⟩

theorem does_bodyByte {p : Parser} (h : Live 1 p) (hs : p.state = .bodyIdentity) (ch : UInt8) :
    (bodyIdentity p [ch]).Does (bodyByte p ch) ch p.nread := by
  obtain ⟨hpos, hlt⟩ : 0 < p.contentLength ∧ p.contentLength < ULLONG_MAX := by
    simpa [Good, hs] using h.good
  have hmin : min p.contentLength [ch].length = 1 := by
    rw [List.length_singleton]
    omega
  unfold bodyIdentity
  dsimp only
  rw [if_neg (by omega), hmin]
  by_cases hlast : p.contentLength - 1 = 0
  · rw [if_pos hlast, bodyByte_last hlast, hlast]
    refine ⟨rfl, ⟨p.nread, Nat.le_refl _, rfl⟩, fun m => ?_⟩
    exact run_mark_advance_nil m _
  · rw [if_neg hlast, bodyByte_more hlast]
    exact ⟨rfl, ⟨p.nread, Nat.le_refl _, rfl⟩, fun m => rfl⟩

theorem does_dispatch {p : Parser} (h : Live 1 p) {ch : UInt8}
    (hroom : p.state.parsingHeader = true → p.nread + 1 ≤ HTTP_MAX_HEADER_SIZE)
    (hok : (byte p ch).outcome = .next) :
    (dispatch p ch []).Does (byte p ch) ch
      (p.nread + if p.state.parsingHeader then 1 else 0) := by
  unfold byte at hok ⊢
  unfold dispatch
  cases hs : p.state with
  | headerField =>
    rw [hs] at hok hroom
    exact does_fieldChar (hroom rfl) hok
  | headerValue =>
    rw [hs] at hok hroom
    exact does_valueChar (hroom rfl) hok
  | bodyIdentity =>
    exact does_bodyByte h hs ch
  | bodyIdentityEof | chunkData =>
    rw [hs] at hok
    simp only [handle, hs] at hok
    cases hok
  | _ =>
    refine ⟨rfl, ⟨(handle p ch).parser.nread, ?_, rfl⟩, fun m => rfl⟩
    exact Nat.le_add_right_of_le (handle_nread p ch)

/-- A call with one byte, which counts up to two bytes of a header. -/
theorem execute_byte {p : Parser} (h : Live 0 p) (hs : p.state ≠ .chunkSizeStart)
    (hroom : p.state.parsingHeader = true → p.nread + 2 ≤ HTTP_MAX_HEADER_SIZE) {ch : UInt8}
    (hok : (byte p ch).outcome = .next) :
    (execute p [ch]).parser.httpErrno = .ok ∧
      (∃ n ≤ p.nread + (if p.state.parsingHeader then 2 else 0),
        (execute p [ch]).parser = (byte p ch).parser.setNread n) ∧
      (execute p [ch]).events = signals p.state (byte p ch).acts ch := by
  obtain ⟨n, hn, houtcome, hparser, hrun⟩ :
      ∃ n ≤ p.nread + (if p.state.parsingHeader then 2 else 0),
      (iterate p ch []).outcome = .next ∧
      (iterate p ch []).parser = (byte p ch).parser.setNread n ∧
      ∀ m : Marks DataKind UInt8, m.run (iterate p ch []).acts =
        m.run ((byte p ch).acts ++ [.advance [ch]]) := by
    by_cases hp : p.state.parsingHeader = true
    · have hle := hroom hp
      obtain ⟨k, hk, hbyte⟩ := byte_setNread hs (p.nread + 1) ch
      have hcount : p.nread + 1 ≤ HTTP_MAX_HEADER_SIZE := Nat.le_of_succ_le hle
      have hlive : Live 1 (p.setNread (p.nread + 1)) := by
        have heq : countHeaderSize p 1 = p.setNread (p.nread + 1) := by
          rw [countHeaderSize, Nat.mod_eq_of_lt (lt_of_le_of_lt hcount (by decide))]
          rfl
        rw [← heq]
        exact h.counted (by rw [heq]; exact hcount)
      have hok' : (byte (p.setNread (p.nread + 1)) ch).outcome = .next := by
        rw [hbyte]
        exact hok
      obtain ⟨hout, ⟨n, hn, hparser⟩, hrun⟩ := does_dispatch hlive (fun _ => hle) hok'
      rw [iterate_header hp, counted_room hcount, if_pos hp]
      rw [Parser.setNread_state, if_pos hp] at hn
      refine ⟨n, hn, hout.trans hok', ?_, ?_⟩
      · rw [hparser, hbyte]
        rfl
      · rw [hbyte] at hrun
        exact hrun
    · rw [Bool.not_eq_true] at hp
      obtain ⟨hout, ⟨n, hn, hparser⟩, hrun⟩ :=
        does_dispatch (h.one hp) (fun hp' => absurd hp' (by simp [hp])) hok
      rw [hp] at hn ⊢
      rw [iterate_body hp]
      exact ⟨n, hn, hout.trans hok, hparser, hrun⟩
  have hne : (iterate p ch []).outcome ≠ .error := by simp [houtcome]
  obtain ⟨hexecute, hevents⟩ := execute_single h hne
  refine ⟨?_, ⟨n, hn, hexecute.trans hparser⟩, ?_⟩
  · rw [hexecute]
    exact ((sound_iterate h ch []).live hne).errno
  · rw [hevents, hrun]
    rfl

/-! ## Runs -/

/-- The bytes read one at a time, with room for `k` more bytes of a header: there is no error, the
parser ends as `q`, and the callbacks are `evs`, but for the cuts of their data. -/
def ReadsIn (k : Nat) (p : Parser) (bs : Bytes) (q : Parser) (evs : List Event) : Prop :=
  ∀ n, n + k ≤ HTTP_MAX_HEADER_SIZE → Live 0 (p.setNread n) →
    ∃ m ≤ n + k, Plain (p.setNread n) bs ∧
      (feed (p.setNread n) (bytewise bs)).1 = q.setNread m ∧
      glue (feed (p.setNread n) (bytewise bs)).2 = glue evs

/-- The same in a header, where a byte may count twice. -/
def Reads (p : Parser) (bs : Bytes) (q : Parser) (evs : List Event) : Prop :=
  ReadsIn (2 * bs.length) p bs q evs

theorem Plain.snoc {p : Parser} {bs cs : Bytes} (h : Plain p bs)
    (hup : (feed p (bytewise bs)).1.upgrade = false)
    (h' : Plain (feed p (bytewise bs)).1 cs) : Plain p (bs ++ cs) := by
  induction bs generalizing p with
  | nil => exact h'
  | cons b bs ih =>
    obtain ⟨hok, hupgrade, hrest⟩ := h
    refine ⟨hok, fun _ => ?_, ih hrest hup h'⟩
    cases bs with
    | nil => exact hup
    | cons b' bs => exact hupgrade (List.cons_ne_nil _ _)

section Reads

variable {k l : Nat} {p q r : Parser} {bs cs : Bytes} {evs evs' : List Event}

theorem ReadsIn.append (h : ReadsIn k p bs q evs) (hup : q.upgrade = false)
    (h' : ReadsIn l q cs r evs') : ReadsIn (k + l) p (bs ++ cs) r (evs ++ evs') := by
  intro n hroom hlive
  obtain ⟨m, hm, hplain, hparser, hevents⟩ := h n (by omega) hlive
  have hlive' := hplain.live hlive
  rw [hparser] at hlive'
  obtain ⟨m', hm', hplain', hparser', hevents'⟩ := h' m (by omega) hlive'
  rw [← hparser] at hplain' hparser' hevents'
  refine ⟨m', by omega, hplain.snoc (by rw [hparser]; exact hup) hplain', ?_, ?_⟩
  · rw [bytewise_append, feed_append]
    exact hparser'
  · rw [bytewise_append, feed_append]
    exact glue_append_congr hevents hevents'

theorem ReadsIn.congr (h : ReadsIn k p bs q evs) (hevs : glue evs = glue evs') :
    ReadsIn k p bs q evs' := by
  intro n hroom hlive
  obtain ⟨m, hm, hplain, hparser, hevents⟩ := h n hroom hlive
  exact ⟨m, hm, hplain, hparser, hevents.trans hevs⟩

theorem ReadsIn.single {ch : UInt8} {acts : List Action} (hs : p.state ≠ .chunkSizeStart)
    (hb : byte p ch = .next q acts) :
    ReadsIn (if p.state.parsingHeader then 2 else 0) p [ch] q (signals p.state acts ch) := by
  intro n hroom hlive
  obtain ⟨j, hj, hbyte⟩ := byte_setNread hs n ch
  rw [hb] at hbyte
  have hroom' : (p.setNread n).state.parsingHeader = true →
      (p.setNread n).nread + 2 ≤ HTTP_MAX_HEADER_SIZE := by
    intro hp
    rw [Parser.setNread_state] at hp
    rwa [if_pos hp] at hroom
  obtain ⟨herrno, ⟨m, hm, hparser⟩, hevents⟩ := execute_byte hlive hs hroom' (by rw [hbyte]; rfl)
  rw [hbyte] at hparser hevents
  refine ⟨m, hm, ⟨herrno, fun hne => absurd rfl hne, trivial⟩, hparser, ?_⟩
  simp only [bytewise, List.map_cons, List.map_nil, feed, hevents, List.append_nil]
  rfl

theorem ReadsIn.mono (h : ReadsIn k p bs q evs) (hkl : k ≤ l) : ReadsIn l p bs q evs := by
  intro n hroom hlive
  obtain ⟨m, hm, hrest⟩ := h n (by omega) hlive
  exact ⟨m, by omega, hrest⟩

theorem Reads.nil (p : Parser) : Reads p [] p [] :=
  fun n _ _ => ⟨n, Nat.le_refl n, trivial, rfl, rfl⟩

theorem Reads.append (h : Reads p bs q evs) (hup : q.upgrade = false) (h' : Reads q cs r evs') :
    Reads p (bs ++ cs) r (evs ++ evs') := by
  rw [Reads, List.length_append, Nat.mul_add]
  exact ReadsIn.append h hup h'

theorem Reads.congr (h : Reads p bs q evs) (hevs : glue evs = glue evs') : Reads p bs q evs' :=
  ReadsIn.congr h hevs

theorem Reads.single {ch : UInt8} {acts : List Action} (hs : p.state ≠ .chunkSizeStart)
    (hb : byte p ch = .next q acts) : Reads p [ch] q (signals p.state acts ch) :=
  (ReadsIn.single hs hb).mono (by rw [List.length_singleton]; split <;> omega)

theorem Reads.cons {ch : UInt8} {acts : List Action} (hs : p.state ≠ .chunkSizeStart)
    (hb : byte p ch = .next q acts) (hup : q.upgrade = false) (h : Reads q bs r evs) :
    Reads p (ch :: bs) r (signals p.state acts ch ++ evs) :=
  (Reads.single hs hb).append hup h

end Reads

/-- The machine on a text. -/
def steps (p : Parser) : Bytes → Option (Parser × List Event)
  | [] => some (p, [])
  | ch :: bs =>
    match byte p ch with
    | ⟨q, acts, .next⟩ =>
      if p.state = .chunkSizeStart ∨ q.upgrade then none
      else (steps q bs).map fun r => (r.1, signals p.state acts ch ++ r.2)
    | _ => none

theorem reads_steps {p q : Parser} {bs : Bytes} {evs : List Event}
    (h : steps p bs = some (q, evs)) : Reads p bs q evs := by
  induction bs generalizing p evs with
  | nil =>
    cases h
    exact .nil _
  | cons ch bs ih =>
    unfold steps at h
    generalize hb : byte p ch = s at h
    obtain ⟨r, acts, outcome⟩ := s
    cases outcome with
    | next =>
      dsimp only at h
      split at h
      · cases h
      · rename_i hnot
        obtain ⟨⟨q', evs'⟩, hsteps, heq⟩ := Option.map_eq_some_iff.mp h
        cases heq
        refine .cons (fun hs => hnot (.inl hs)) hb ?_ (ih hsteps)
        rw [← Bool.not_eq_true]
        exact fun hup => hnot (.inr hup)
    | exit | error | abort => cases h

theorem reads_of_steps {p q : Parser} {bs : Bytes} {evs : List Event}
    (h : (steps p bs).map (fun r => (r.1, glue r.2)) = some (q, glue evs)) : Reads p bs q evs := by
  obtain ⟨⟨q', evs'⟩, hsteps, heq⟩ := Option.map_eq_some_iff.mp h
  obtain ⟨hparser, hevents⟩ := Prod.mk.inj heq
  rw [← hparser]
  exact (reads_steps hsteps).congr hevents

end Third
end CoSocket
