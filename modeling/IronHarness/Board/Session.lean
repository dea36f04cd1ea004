import IronHarness.Board.Repl

/-!
# A session in raw mode

What a session of the driver sees of a board depends on the bytes that wait to be read, not on how the reads cut them:
the `view` of a link puts the buffer of the stream in front of what the board has sent.  Output that waits before
`enter` and holds no Ctrl-D may contain prompts and banners: what `enter` leaves of it ends up in the output section of
the first command (`exec_total`), and every later command starts with nothing to be read.
-/

namespace IronHarness.Board

open ByteText Polled

variable {S : Type} {run : S → List Char → S × Reply}

/-- The board, with everything that is still to be read in its output. -/
def Wire.view (w : Wire S) : Device S := w.device.delay w.buf

/-- Deadlines do not expire, and the link keeps delivering. -/
def inTime : Fairness Poll where
  Fair sched := (∀ i, sched i ≠ .late) ∧ ∀ i, ∃ j size, 0 < size ∧ sched (i + j) = .read size
  shift_fair := by
    rintro n sched ⟨hlate, hread⟩
    refine ⟨fun i => hlate (n + i), fun i => ?_⟩
    obtain ⟨j, size, hsize, hj⟩ := hread (n + i)
    exact ⟨j, size, hsize, by rw [shift, ← Nat.add_assoc, hj]⟩

/-! ### The stream -/

namespace Stream

theorem cut_append {terminator buf piece rest : Bytes} (h : cut terminator buf = some (piece, rest)) (more : Bytes) :
    cut terminator (buf ++ more) = some (piece, rest ++ more) := by
  obtain ⟨idx, hidx, heq⟩ := Option.map_eq_some_iff.1 h
  obtain ⟨rfl, rfl⟩ := Prod.mk.inj heq
  have hlen := (find_eq_some hidx).2
  rw [cut, find_append hidx, Option.map_some, List.take_append_of_le_length (by omega),
    List.drop_append_of_le_length (by omega)]

theorem cut_singleton {x : UInt8} {piece : Bytes} (h : x ∉ piece) (rest : Bytes) :
    cut [x] (piece ++ x :: rest) = some (piece, rest) := by
  rw [cut, find_singleton_append h, Option.map_some]
  simp

theorem cut_eq_none {x : UInt8} {buf : Bytes} (h : x ∉ buf) : cut [x] buf = none := by
  rw [cut, find_singleton_eq_none.2 h, Option.map_none]

/-- Where a terminator occurs, something is cut, and at least what follows the occurrence is left. -/
private theorem cut_of_mem (terminator front back : Bytes) :
    ∃ piece rest, cut terminator (front ++ terminator ++ back) = some (piece, rest) ∧ back <:+ rest ∧
      rest <:+ front ++ terminator ++ back := by
  cases hfind : find terminator (front ++ terminator ++ back) with
  | none =>
    refine absurd ?_ (find_eq_none.1 hfind front.length (by simp))
    rw [List.append_assoc, List.drop_left]
    exact List.prefix_append ..
  | some idx =>
    have hidx : idx ≤ front.length := by
      by_contra hlater
      refine find_minimal hfind (Nat.lt_of_not_le hlater) ?_
      rw [List.append_assoc, List.drop_left]
      exact List.prefix_append ..
    refine ⟨_, _, by rw [cut, hfind, Option.map_some], ?_, List.drop_suffix ..⟩
    refine List.suffix_of_suffix_length_le (List.suffix_append ..) (List.drop_suffix ..) ?_
    simp
    omega

private theorem fill_view (w : Wire S) (size : Nat) : (fill w size).view = w.view := by
  simp [fill, Wire.view, Device.delay, List.append_assoc]

theorem untilLoop_of_cut {terminator piece rest : Bytes} {w : Wire S} (h : cut terminator w.buf = some (piece, rest))
    (polls : List Poll) : untilLoop terminator polls w = some (.ok piece, { w with buf := rest }, polls) := by
  cases polls with
  | nil => rw [untilLoop, h, Option.map_some]
  | cons poll polls => simp only [untilLoop, h]

/-- What one look of `until` at the link does: it ends without the read, it ends behind the read, or it goes on. -/
inductive Look (I : Wire S → Prop) (Q : Except Exn Bytes → Wire S → Prop) (terminator : Bytes) (w : Wire S) (poll : Poll) :
    Prop
  | found {r : Except Exn Bytes} {w' : Wire S} (hQ : Q r w')
      (hrun : ∀ polls, untilLoop terminator polls w = some (r, w', polls)) : Look I Q terminator w poll
  | ended {r : Except Exn Bytes} {w' : Wire S} (hQ : Q r w')
      (hrun : ∀ polls, untilLoop terminator (poll :: polls) w = some (r, w', polls)) : Look I Q terminator w poll
  | next {size : Nat} (hsize : poll = .read size) (hpos : 0 < w.device.outbuf.length) (hI : I (fill w size))
      (hrun : ∀ polls, untilLoop terminator (poll :: polls) w = untilLoop terminator polls (fill w size)) :
      Look I Q terminator w poll

/-- A loop that ends or goes on at every look ends under a schedule whose `j`-th poll delivers.  The induction is on
what the board has sent and then on `j`. -/
private theorem untilLoop_total {I : Wire S → Prop} {Q : Except Exn Bytes → Wire S → Prop} {terminator : Bytes}
    (hlook : ∀ w poll, poll ≠ .late → I w → Look I Q terminator w poll) {w : Wire S} {sched : Nat → Poll} {j size : Nat}
    (hfair : inTime.Fair sched) (hsize : 0 < size) (hj : sched j = .read size) (hI : I w) :
    ∃ n r w', Q r w' ∧ ∀ later, untilLoop terminator (front sched n ++ later) w = some (r, w', later) := by
  obtain ⟨len, hlen⟩ : ∃ len, w.device.outbuf.length ≤ len := ⟨_, Nat.le_refl _⟩
  induction len generalizing w sched j size with
  | zero =>
    cases hlook w (sched 0) (hfair.1 0) hI with
    | found hQ hrun => exact ⟨0, _, _, hQ, hrun⟩
    | ended hQ hrun => exact ⟨1, _, _, hQ, hrun⟩
    | next _ hpos => omega
  | succ len ihlen =>
    induction j generalizing w sched with
    | zero =>
      cases hlook w (sched 0) (hfair.1 0) hI with
      | found hQ hrun => exact ⟨0, _, _, hQ, hrun⟩
      | ended hQ hrun => exact ⟨1, _, _, hQ, hrun⟩
      | @next size' hsize' hpos hI' hrun =>
        -- the read takes something, so the board has less to send
        obtain rfl : size = size' := by simpa using hj.symm.trans hsize'
        have hfair' := inTime.shift_fair 1 hfair
        obtain ⟨j', size', hpos', hj'⟩ := hfair'.2 0
        rw [Nat.zero_add] at hj'
        obtain ⟨n, r, w', hQ, hrest⟩ := ihlen hfair' hpos' hj' hI' (by simp [fill]; omega)
        refine ⟨n + 1, r, w', hQ, fun later => ?_⟩
        rw [front_succ, List.cons_append, hrun, hrest]
    | succ j ihj =>
      cases hlook w (sched 0) (hfair.1 0) hI with
      | found hQ hrun => exact ⟨0, _, _, hQ, hrun⟩
      | ended hQ hrun => exact ⟨1, _, _, hQ, hrun⟩
      | next hsize' hpos hI' hrun =>
        have hfair' := inTime.shift_fair 1 hfair
        obtain ⟨n, r, w', hQ, hrest⟩ := ihj hfair' (by rw [shift, Nat.add_comm, hj]) hI' (by simp [fill]; omega)
        refine ⟨n + 1, r, w', hQ, fun later => ?_⟩
        rw [front_succ, List.cons_append, hrun, hrest]

/-- The rule for `until`: an invariant under which every look ends the loop or goes on. -/
private theorem upTo_total_of {I : Wire S → Prop} {Q : Except Exn Bytes → Wire S → Prop} {terminator : Bytes}
    (hlook : ∀ w poll, poll ≠ .late → I w → Look I Q terminator w poll) {w : Wire S} (hI : I w) :
    Total inTime (upTo terminator) w Q := by
  intro sched hfair
  obtain ⟨j, size, hsize, hj⟩ := hfair.2 0
  rw [Nat.zero_add] at hj
  exact untilLoop_total hlook hfair hsize hj hI

section Until

variable {terminator piece rest : Bytes}

/-- What is found with more bytes and not before ends behind the bytes there were. -/
private theorem length_lt_of_cut {buf more : Bytes} (hnone : cut terminator buf = none)
    (hcut : cut terminator (buf ++ more) = some (piece, rest)) : buf.length < piece.length + terminator.length := by
  obtain ⟨idx, hidx, heq⟩ := Option.map_eq_some_iff.1 hcut
  obtain ⟨rfl, -⟩ := Prod.mk.inj heq
  obtain ⟨hat, hlen⟩ := find_eq_some hidx
  by_contra hlong
  rw [List.length_append] at hlen
  rw [List.length_take, List.length_append, Nat.min_eq_left (by omega), Nat.not_lt] at hlong
  rw [List.drop_append_of_le_length (by omega)] at hat
  have hinside : terminator <+: buf.drop idx :=
    List.prefix_of_prefix_length_le hat (List.prefix_append ..) (by rw [List.length_drop]; omega)
  exact find_eq_none.1 (Option.map_eq_none_iff.1 hnone) idx (by omega) hinside

/-- `until` returns what stands before a terminator that comes early, however the reads cut it. -/
private theorem upTo_early {d : Device S} (hcut : cut terminator d.outbuf = some (piece, rest))
    (hfit : d.outbuf.length ≤ maxStreamBuf ∨ piece.length + terminator.length + 255 ≤ maxStreamBuf) {w : Wire S}
    (hview : w.view = d) (hbuf : w.buf.length ≤ maxStreamBuf) :
    Returns inTime (upTo terminator) w fun found w' =>
      found = piece ∧ w'.view = { d with outbuf := rest } ∧ w'.buf.length ≤ maxStreamBuf := by
  refine upTo_total_of (I := fun w => w.view = d ∧ w.buf.length ≤ maxStreamBuf) ?_ ⟨hview, hbuf⟩
  rintro w poll hlate ⟨rfl, hbuf⟩
  match hfound : cut terminator w.buf with
  | some (p, r) =>
    obtain ⟨rfl, rfl⟩ := Prod.mk.inj (Option.some.inj ((cut_append hfound w.device.outbuf).symm.trans hcut))
    have hrest : r.length ≤ maxStreamBuf := by
      obtain ⟨idx, -, heq⟩ := Option.map_eq_some_iff.1 hfound
      obtain ⟨-, rfl⟩ := Prod.mk.inj heq
      exact Nat.le_trans (List.drop_sublist ..).length_le hbuf
    exact .found ⟨p, rfl, rfl, rfl, hrest⟩ (untilLoop_of_cut hfound)
  | none =>
    have hpos : 0 < w.device.outbuf.length := by
      by_contra hempty
      have hnil : w.device.outbuf = [] := List.length_eq_zero_iff.1 (by omega)
      have hbuffer : w.view.outbuf = w.buf := by simp [Wire.view, Device.delay, hnil]
      rw [hbuffer, hfound] at hcut
      cases hcut
    cases poll with
    | late => exact absurd rfl hlate
    | read size =>
      have hshort : (fill w size).buf.length ≤ maxStreamBuf := by
        have hearly := length_lt_of_cut hfound hcut
        simp only [Wire.view, Device.delay, List.length_append] at hfit
        simp only [fill, List.length_append, List.length_take]
        omega
      refine .next rfl hpos ⟨fill_view w size, hshort⟩ fun polls => ?_
      rw [untilLoop, hfound]
      simp only [if_neg (Nat.not_lt.2 hshort)]

/-- Without the terminator among the bytes that fit into the buffer, a longer answer is an error. -/
private theorem upTo_flood {d : Device S} {x : UInt8} (hnone : x ∉ d.outbuf.take maxStreamBuf)
    (hlong : maxStreamBuf < d.outbuf.length) {w : Wire S} (hview : w.view = d) (hbuf : w.buf.length ≤ maxStreamBuf) :
    Raises inTime (upTo [x]) w fun e w' => e = .transportIoError ∧ w'.view = d := by
  refine upTo_total_of (I := fun w => w.view = d ∧ w.buf.length ≤ maxStreamBuf) ?_ ⟨hview, hbuf⟩
  rintro w poll hlate ⟨rfl, hbuf⟩
  have hfound : cut [x] w.buf = none := by
    refine cut_eq_none fun hmem => hnone ?_
    rw [Wire.view, Device.delay, List.take_append]
    exact List.mem_append_left _ (by rwa [List.take_of_length_le hbuf])
  cases poll with
  | late => exact absurd rfl hlate
  | read size =>
    by_cases hfull : maxStreamBuf < (fill w size).buf.length
    · refine .ended ⟨_, rfl, rfl, fill_view w size⟩ fun polls => ?_
      rw [untilLoop, hfound]
      simp only [if_pos hfull]
    · have hpos : 0 < w.device.outbuf.length := by
        simp only [Wire.view, Device.delay, List.length_append] at hlong
        omega
      refine .next rfl hpos ⟨fill_view w size, Nat.not_lt.1 hfull⟩ fun polls => ?_
      rw [untilLoop, hfound]
      simp only [if_neg hfull]

/-- `until` returns what stands before the terminator when all that is to be read fits into the buffer. -/
private theorem upTo_total {w : Wire S} (hcut : cut terminator w.view.outbuf = some (piece, rest))
    (hfit : w.view.outbuf.length ≤ maxStreamBuf) :
    Returns inTime (upTo terminator) w fun found w' => found = piece ∧ w'.view = { w.view with outbuf := rest } := by
  have hbuf : w.buf.length ≤ maxStreamBuf := by
    simp only [Wire.view, Device.delay, List.length_append] at hfit
    omega
  exact (upTo_early hcut (.inl hfit) rfl hbuf).mono fun _ _ h => ⟨h.1, h.2.1⟩

/-- Without the terminator in what is to be read `until` does not return, whatever the polls see. -/
private theorem upTo_partial {x : UInt8} {w : Wire S} (hnone : x ∉ w.view.outbuf) :
    Partial (upTo [x]) w fun r _ => r = .error .timeoutError ∨ r = .error .transportIoError := by
  intro polls r s' rest hrun
  change untilLoop [x] polls w = _ at hrun
  induction polls generalizing w with
  | nil =>
    have hbuf : x ∉ w.buf := fun hmem => hnone (List.mem_append_left _ hmem)
    rw [untilLoop, cut_eq_none hbuf] at hrun
    cases hrun
  | cons poll polls ih =>
    have hbuf : x ∉ w.buf := fun hmem => hnone (List.mem_append_left _ hmem)
    cases poll with
    | late =>
      simp only [untilLoop, cut_eq_none hbuf] at hrun
      cases hrun
      exact .inl rfl
    | read size =>
      simp only [untilLoop, cut_eq_none hbuf] at hrun
      split at hrun
      · cases hrun
        exact .inr rfl
      · exact ih (by rwa [fill_view]) hrun

end Until

/-- A prompt that waits at the front is taken off. -/
private theorem untilPrompt_total {w : Wire S} {rest : Bytes} (hout : w.view.outbuf = prompt :: rest)
    (hfit : w.view.outbuf.length ≤ maxStreamBuf) :
    Returns inTime untilPrompt w fun _ w' => w'.view = { w.view with outbuf := rest } := by
  have hcut : cut [prompt] w.view.outbuf = some ([], rest) := by
    rw [hout]
    exact cut_singleton (List.not_mem_nil) rest
  exact (upTo_total hcut hfit).mono fun _ _ h => h.2

end Stream

namespace MpRepl

/-! ### Raw mode -/

theorem write_total (w : Wire S) (data : Bytes) :
    Returns inTime (write run data) w fun _ w' => w'.view = w.view.write run data ∧ w'.buf = w.buf :=
  Total.modify ⟨(), rfl, (Device.write_delay run w.buf w.device data).symm, rfl⟩

variable (run) in
/-- What the dance does to a board: it is in raw mode, behind a banner. -/
private theorem dance_writes (d : Device S) :
    ∃ sent, ((d.write run [ctrlB]).write run [ctrlC, ctrlC]).write run [ctrlA] =
        { d with inbuf := [], outbuf := d.outbuf ++ sent ++ banner, raw := true } ∧ ctrlD ∉ sent ∧ sent.length ≤ 3 := by
  obtain ⟨inbuf, sent, hwrite, hsent, hlen⟩ := Device.write_ctrlB run d
  refine ⟨sent, ?_, hsent, hlen⟩
  rw [hwrite]
  rfl

/-- A link whose board executes commands: at most `left` bytes without Ctrl-D wait to be read. -/
structure AtPrompt (left : Nat) (s : S) (answered : List (List Char × Reply)) (w : Wire S) : Prop where
  state : w.view.state = s
  inbuf : w.view.inbuf = []
  raw : w.view.raw = true
  answered : w.view.answered = answered
  clean : ctrlD ∉ w.view.outbuf
  short : w.view.outbuf.length ≤ left

/-- A link whose board waits in any mode, with at most `left` bytes without Ctrl-D to be read. -/
structure Waiting (left : Nat) (s : S) (answered : List (List Char × Reply)) (w : Wire S) : Prop where
  state : w.view.state = s
  answered : w.view.answered = answered
  clean : ctrlD ∉ w.view.outbuf
  short : w.view.outbuf.length ≤ left

variable {left : Nat} {s : S} {answered : List (List Char × Reply)} {w : Wire S}

/-- Behind any output a banner is found, and a prompt behind the place where its text is seen first. -/
private theorem banner_cuts (early : Bytes) :
    ∃ piece rest piece' rest', Stream.cut rawRepl (early ++ banner) = some (piece, rest) ∧
      Stream.cut [prompt] rest = some (piece', rest') ∧ rest <:+ early ++ banner ∧ rest' <:+ rest := by
  have hbanner : banner = rawRepl ++ (encode "; CTRL-B to exit\r\n".toList ++ [prompt]) := by decide
  obtain ⟨piece, rest, hcut, ⟨between, hrest⟩, hsuffix⟩ := Stream.cut_of_mem rawRepl early
    (encode "; CTRL-B to exit\r\n".toList ++ [prompt])
  rw [List.append_assoc, ← hbanner] at hcut hsuffix
  obtain ⟨piece', rest', hcut', -, hsuffix'⟩ := Stream.cut_of_mem [prompt]
    (between ++ encode "; CTRL-B to exit\r\n".toList) []
  rw [List.append_nil, List.append_assoc, hrest] at hcut' hsuffix'
  exact ⟨piece, rest, piece', rest', hcut, hcut', hsuffix, hsuffix'⟩

/-- The dance reaches raw mode in front of any output without Ctrl-D, prompts and banners included. -/
private theorem dance_total (h : Waiting left s answered w) (hfit : left + 30 ≤ Stream.maxStreamBuf) :
    Returns inTime (dance run) w fun _ w' => AtPrompt (left + 30) s answered w' := by
  obtain ⟨sent, hsent, hclean, hlen⟩ := dance_writes run w.view
  obtain ⟨piece, rest, piece', rest', hcut, hcut', hsuffix, hsuffix'⟩ := banner_cuts (w.view.outbuf ++ sent)
  have hlong : (w.view.outbuf ++ sent ++ banner).length ≤ left + 30 := by
    have hshort := h.short
    have hbanner : banner.length = 27 := by decide
    rw [List.length_append, List.length_append]
    omega
  have hall : ctrlD ∉ w.view.outbuf ++ sent ++ banner := by
    have hbanner : ctrlD ∉ banner := by decide
    simp [h.clean, hclean, hbanner]
  refine Returns.seq (write_total w _) fun _ w₁ ⟨h₁, _⟩ => ?_
  refine Returns.seq (write_total w₁ _) fun _ w₂ ⟨h₂, _⟩ => ?_
  refine Returns.seq (write_total w₂ _) fun _ w₃ ⟨h₃, _⟩ => ?_
  rw [h₂, h₁, hsent] at h₃
  have hfound : Stream.cut rawRepl w₃.view.outbuf = some (piece, rest) := by
    rw [h₃]
    exact hcut
  have hfits : w₃.view.outbuf.length ≤ Stream.maxStreamBuf := by
    rw [h₃]
    exact Nat.le_trans hlong hfit
  refine Returns.seq (Stream.upTo_total hfound hfits) fun _ w₄ h₄ => ?_
  have hfound' : Stream.cut [prompt] w₄.view.outbuf = some (piece', rest') := by
    rw [h₄.2]
    exact hcut'
  have hfits' : w₄.view.outbuf.length ≤ Stream.maxStreamBuf := by
    rw [h₄.2]
    exact Nat.le_trans hsuffix.length_le (Nat.le_trans hlong hfit)
  refine Returns.seq (Stream.upTo_total hfound' hfits') fun _ w₅ h₅ => ?_
  have hview : w₅.view = ⟨s, [], rest', true, answered⟩ := by
    rw [h₅.2, h₄.2, h₃, h.state, h.answered]
  have hrest' : ctrlD ∉ rest' := fun hmem => hall (hsuffix.subset (hsuffix'.subset hmem))
  have hlen' : rest'.length ≤ left + 30 := Nat.le_trans hsuffix'.length_le (Nat.le_trans hsuffix.length_le hlong)
  exact Returns.pure ⟨by rw [hview], by rw [hview], by rw [hview], by rw [hview], by rwa [hview], by rwa [hview]⟩

/-- `enter` reaches raw mode at the first attempt. -/
theorem enter_total (h : Waiting left s answered w) (hfit : left + 30 ≤ Stream.maxStreamBuf) {fuel : Nat}
    (hfuel : 0 < fuel) : Returns inTime (enter run fuel) w fun _ w' => AtPrompt (left + 30) s answered w' := by
  obtain ⟨fuel, rfl⟩ : ∃ n, fuel = n + 1 := ⟨fuel - 1, by omega⟩
  exact Total.catching (dance_total h hfit) (fun _ _ h => h) fun _ _ ⟨_, h, _⟩ => by cases h

/-! ### Commands -/

/-- An answer whose sections can be told apart. -/
structure Clean (reply : Reply) : Prop where
  out : ctrlD ∉ reply.out
  err : ctrlD ∉ reply.err

/-- Where a command is executed, the driver gets the two sections of its answer; what waited before is in front of the
output, and nothing waits afterwards. -/
theorem exec_total (h : AtPrompt left s answered w) {command : List Char} (hcommand : IsCommand command)
    (hclean : Clean (run s command).2) (hfit : left + (run s command).2.bytes.length ≤ Stream.maxStreamBuf) :
    Total inTime (exec_ run command) w fun r w' =>
      AtPrompt 0 (run s command).1 (answered ++ [(command, (run s command).2)]) w' ∧
        ∃ early, early.length ≤ left ∧ r = answer (early ++ (run s command).2.out) (run s command).2.err := by
  refine Returns.seq (write_total w _) fun _ w₁ ⟨h₁, _⟩ => ?_
  rw [Device.write_command run h.raw h.inbuf hcommand, h.state] at h₁
  generalize run s command = result at hclean hfit h₁ ⊢
  obtain ⟨s', reply⟩ := result
  have hlong : w₁.view.outbuf.length ≤ Stream.maxStreamBuf := by
    have hshort := h.short
    rw [h₁, List.length_append]
    exact Nat.le_trans (Nat.add_le_add_right hshort _) hfit
  have hout : Stream.cut [ctrlD] w₁.view.outbuf = some (w.view.outbuf ++ reply.out, reply.err ++ [ctrlD, prompt]) := by
    have hnone : ctrlD ∉ w.view.outbuf ++ reply.out := by simp [h.clean, hclean.out]
    have hcut := Stream.cut_singleton hnone (reply.err ++ [ctrlD, prompt])
    rw [h₁, ← hcut]
    simp [Reply.bytes]
  have hrest : (reply.err ++ [ctrlD, prompt]).length ≤ w₁.view.outbuf.length := by
    rw [h₁]
    simp [Reply.bytes]
    omega
  refine Returns.seq (Stream.upTo_total hout hlong) fun out w₂ h₂ => ?_
  have herr : Stream.cut [ctrlD] w₂.view.outbuf = some (reply.err, [prompt]) := by
    rw [h₂.2]
    exact Stream.cut_singleton hclean.err [prompt]
  refine Returns.seq (Stream.upTo_total herr (by rw [h₂.2]; exact Nat.le_trans hrest hlong)) fun err w₃ h₃ => ?_
  have hprompt : w₃.view.outbuf = prompt :: [] := by rw [h₃.2]
  refine Returns.seq (Stream.untilPrompt_total hprompt (by rw [hprompt]; decide)) fun _ w₄ h₄ => ?_
  have hview : w₄.view = ⟨s', [], [], true, answered ++ [(command, reply)]⟩ := by
    rw [h₄, h₃.2, h₂.2, h₁, h.answered, h.inbuf, h.raw]
  have hat : AtPrompt 0 s' (answered ++ [(command, reply)]) w₄ :=
    ⟨by rw [hview], by rw [hview], by rw [hview], by rw [hview], by simp [hview], by simp [hview]⟩
  rw [h₂.1, h₃.1]
  cases hanswer : answer (w.view.outbuf ++ reply.out) reply.err with
  | ok text => exact Total.pure ⟨hat, w.view.outbuf, h.short, hanswer.symm⟩
  | error e => exact Total.throw ⟨hat, w.view.outbuf, h.short, hanswer.symm⟩

/-- An error section that does not fit into the buffer of the stream ends a command in a TransportIoError. -/
theorem exec_flood (h : AtPrompt left s answered w) {command : List Char} (hcommand : IsCommand command)
    (hclean : Clean (run s command).2) (hfit : left + (run s command).2.out.length + 256 ≤ Stream.maxStreamBuf)
    (hlong : Stream.maxStreamBuf ≤ (run s command).2.err.length) :
    Raises inTime (exec_ run command) w fun e w' => e = .transportIoError ∧
      w'.view.answered = answered ++ [(command, (run s command).2)] := by
  refine Returns.seq (write_total w _) fun _ w₁ ⟨h₁, hbuf₁⟩ => ?_
  rw [Device.write_command run h.raw h.inbuf hcommand, h.state] at h₁
  generalize run s command = result at hclean hfit hlong h₁ ⊢
  obtain ⟨s', reply⟩ := result
  dsimp only at hclean hfit hlong h₁ ⊢
  have hshort := h.short
  have hbuf : w₁.buf.length ≤ Stream.maxStreamBuf := by
    rw [Wire.view, Device.delay, List.length_append] at hshort
    rw [hbuf₁]
    omega
  have hout : Stream.cut [ctrlD] w₁.view.outbuf = some (w.view.outbuf ++ reply.out, reply.err ++ [ctrlD, prompt]) := by
    have hnone : ctrlD ∉ w.view.outbuf ++ reply.out := by simp [h.clean, hclean.out]
    have hcut := Stream.cut_singleton hnone (reply.err ++ [ctrlD, prompt])
    rw [h₁, ← hcut]
    simp [Reply.bytes]
  have hearly : (w.view.outbuf ++ reply.out).length + [ctrlD].length + 255 ≤ Stream.maxStreamBuf := by
    rw [List.length_append, List.length_singleton]
    omega
  refine Returns.seq (Stream.upTo_early hout (.inr hearly) rfl hbuf) fun out w₂ ⟨_, h₂, hbuf₂⟩ => ?_
  have hnone : ctrlD ∉ (reply.err ++ [ctrlD, prompt]).take Stream.maxStreamBuf := by
    rw [List.take_append_of_le_length hlong]
    exact fun hmem => hclean.err (List.mem_of_mem_take hmem)
  have hmore : Stream.maxStreamBuf < (reply.err ++ [ctrlD, prompt]).length := by
    rw [List.length_append]
    exact Nat.lt_of_le_of_lt hlong (Nat.lt_add_of_pos_right (by decide))
  refine Raises.skip (Total.mono (Stream.upTo_flood hnone hmore h₂ hbuf₂) ?_) _
  rintro r w₃ ⟨e, rfl, rfl, hview⟩
  refine ⟨_, rfl, rfl, ?_⟩
  rw [hview, h₁]
  exact congrArg (· ++ _) h.answered

/-- A command that is sent in normal mode is not answered. -/
theorem exec_normal {command : List Char} (hcommand : IsCommand command) (hnormal : w.view.raw = false)
    (hclean : ctrlD ∉ w.view.outbuf) :
    Partial (exec_ run command) w fun r _ => r = .error .timeoutError ∨ r = .error .transportIoError := by
  have htyped : ctrlA ∉ encode command ++ [ctrlD] := by
    rw [List.mem_append]
    exact not_or.2 ⟨hcommand.encode_no_control (by decide), by decide⟩
  have hwrite : Partial (write run (encode command ++ [ctrlD])) w fun r w' => r = .ok () ∧
      w'.view.outbuf = w.view.outbuf := by
    refine Partial.modify ⟨rfl, ?_⟩
    show ((w.device.write run _).delay w.buf).outbuf = _
    rw [← Device.write_delay]
    show (w.view.write run _).outbuf = _
    rw [Device.write_normal run hnormal htyped]
  refine Partial.bind hwrite (fun _ w₁ ⟨_, h₁⟩ => ?_) fun e w₁ ⟨h, _⟩ => by cases h
  refine Partial.bind (Stream.upTo_partial (by rwa [h₁])) (fun _ w₂ h₂ => ?_) fun e w₂ h₂ => ?_
  · rcases h₂ with h₂ | h₂ <;> cases h₂
  · rcases h₂ with h₂ | h₂
    · cases h₂
      exact .inl rfl
    · cases h₂
      exact .inr rfl

/-- `exit_` leaves a board in normal mode. -/
theorem exit_total (h : AtPrompt 0 s answered w) :
    Returns inTime (exit_ run) w fun _ w' => Waiting 3 s answered w' ∧ w'.view.raw = false := by
  refine Returns.suppress ((write_total w [ctrlB]).mono fun _ w' ⟨hview, _⟩ => ?_)
  have hout : w.view.outbuf = [] := List.length_eq_zero_iff.1 (Nat.le_zero.1 h.short)
  have hfeed : w.view.write run [ctrlB] = { w.view with inbuf := [], outbuf := encode "\r\n>".toList, raw := false } := by
    show w.view.feed run ctrlB = _
    rw [Device.feed, h.raw, hout]
    rfl
  rw [hfeed] at hview
  have hsent : w'.view.outbuf = encode "\r\n>".toList := by rw [hview]
  refine ⟨⟨?_, ?_, ?_, ?_⟩, ?_⟩
  · rw [hview]
    exact h.state
  · rw [hview]
    exact h.answered
  · rw [hsent]
    decide
  · rw [hsent]
    decide
  · rw [hview]

end MpRepl

end IronHarness.Board
