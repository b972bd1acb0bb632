import NativeInterop.TokenBoundaries
import NativeInterop.Utf8Decoding

/-!
# The pieces of a generation

`OnPiece` decodes every piece on its own and offers the text to a channel of 256 entries
without waiting.  The iterator yields all texts of a run exactly if every one of them finds
room, and the texts make up what the pieces make up together exactly if no piece begins
inside of a character.
-/

namespace NativeInterop.LlamaLanguageModel

open LlamaShim Utf8State TokenBoundaries

/-- What `OnPiece` makes of the pieces; it passes empty texts over. -/
def texts (pieces : List (List UInt8)) : List String :=
  (pieces.map ptrToStringUTF8).filter (· ≠ "")

theorem texts_cons (bytes : List UInt8) (pieces : List (List UInt8)) :
    texts (bytes :: pieces) =
      (if ptrToStringUTF8 bytes = "" then [] else [ptrToStringUTF8 bytes]) ++ texts pieces := by
  unfold texts
  rw [List.map_cons, List.filter_cons]
  split_ifs with hkept hempty
  · simp [hempty] at hkept
  · rfl
  · rfl
  · simp_all

/-- A text the callback is about to write finds room in the channel. -/
def FindsRoom (s : Bridge) : BridgeAct → Prop
  | .piece => ∀ bytes ∈ s.callbacks.head?, ptrToStringUTF8 bytes ≠ "" →
      s.channel.items.length < s.channel.capacity
  | _ => True

/-! ## Nothing is lost but what finds no room -/

/-- The texts yielded, in the channel, and still to be written. -/
def Bridge.kept (s : Bridge) : List String :=
  s.yielded ++ s.channel.items ++ texts s.callbacks

/-- While there are callbacks to come the channel is open, and the iterator has ended only
where there is nothing left. -/
structure Bridge.Orderly (s : Bridge) : Prop where
  writable : s.callbacks ≠ [] → s.channel.completion = none
  called : s.callbacks ≠ [] → s.running = true
  drained : s.ended ≠ none → s.callbacks = [] ∧ s.channel.items = []
  capacity : s.channel.capacity = 256

theorem start_orderly (native : NativeResult) : (Bridge.start native).Orderly where
  writable := fun _ => rfl
  called := fun _ => rfl
  drained := fun hended => absurd rfl hended
  capacity := rfl

theorem kept_start (native : NativeResult) : (Bridge.start native).kept = texts native.pieces :=
  rfl

theorem onPiece_items {channel : BoundedChannel String} (hopen : channel.completion = none)
    (bytes : List UInt8) :
    (onPiece channel bytes).items =
      if ptrToStringUTF8 bytes ≠ "" ∧ channel.items.length < channel.capacity then
        channel.items ++ [ptrToStringUTF8 bytes]
      else channel.items := by
  unfold onPiece
  dsimp only
  by_cases hempty : ptrToStringUTF8 bytes = ""
  · rw [if_pos hempty, if_neg (by simp [hempty])]
  · rw [if_neg hempty]
    by_cases hroom : channel.items.length < channel.capacity
    · simp [BoundedChannel.tryWrite, hopen, hroom, hempty]
    · simp [BoundedChannel.tryWrite, hroom]

theorem onPiece_capacity (channel : BoundedChannel String) (bytes : List UInt8) :
    (onPiece channel bytes).capacity = channel.capacity := by
  unfold onPiece
  dsimp only
  split_ifs
  · rfl
  · cases hwrite : channel.tryWrite (ptrToStringUTF8 bytes) with
    | none => rfl
    | some next => exact (BoundedChannel.tryWrite_eq_some hwrite).2.2

section

variable {s : Bridge} {bytes : List UInt8} {rest : List (List UInt8)}

theorem findsRoom_piece_iff (hcallbacks : s.callbacks = bytes :: rest) :
    FindsRoom s .piece ↔
      (ptrToStringUTF8 bytes ≠ "" → s.channel.items.length < s.channel.capacity) := by
  simp [FindsRoom, hcallbacks]

theorem Bridge.Orderly.piece (horderly : s.Orderly) (hcallbacks : s.callbacks = bytes :: rest) :
    Bridge.Orderly { s with callbacks := rest, channel := onPiece s.channel bytes } := by
  have hmore : s.callbacks ≠ [] := by simp [hcallbacks]
  have hends : s.ended = none := by
    by_contra hended
    exact hmore (horderly.drained hended).1
  exact
    { writable := fun _ => (onPiece_completion _ _).trans (horderly.writable hmore)
      called := fun _ => horderly.called hmore
      drained := fun hended => absurd hends hended
      capacity := (onPiece_capacity _ _).trans horderly.capacity }

theorem Bridge.Orderly.kept_piece (horderly : s.Orderly)
    (hcallbacks : s.callbacks = bytes :: rest) (hroom : FindsRoom s .piece) :
    Bridge.kept { s with callbacks := rest, channel := onPiece s.channel bytes } = s.kept := by
  have hitems := onPiece_items (horderly.writable (by simp [hcallbacks])) bytes
  rw [findsRoom_piece_iff hcallbacks] at hroom
  simp only [Bridge.kept, hcallbacks, texts_cons, hitems]
  by_cases hempty : ptrToStringUTF8 bytes = ""
  · simp [hempty]
  · simp [hempty, hroom hempty]

theorem Bridge.Orderly.kept_piece_lt (horderly : s.Orderly)
    (hcallbacks : s.callbacks = bytes :: rest) (hfull : ¬ FindsRoom s .piece) :
    (Bridge.kept { s with callbacks := rest, channel := onPiece s.channel bytes }).length <
      s.kept.length := by
  have hitems := onPiece_items (horderly.writable (by simp [hcallbacks])) bytes
  rw [findsRoom_piece_iff hcallbacks, Classical.not_imp] at hfull
  rw [if_neg (fun hwritten => hfull.2 hwritten.2)] at hitems
  simp only [Bridge.kept, hcallbacks, texts_cons, hitems, if_neg hfull.1, List.length_append,
    List.length_singleton]
  omega

end

theorem Bridge.Orderly.step {s next : Bridge} {act : BridgeAct} (horderly : s.Orderly)
    (hstep : bridge.step s act = some next) :
    next.Orderly ∧ (FindsRoom s act → next.kept = s.kept) ∧
      (¬ FindsRoom s act → next.kept.length < s.kept.length) := by
  cases act with
  | piece =>
      simp only [bridge, bridgeStep] at hstep
      split at hstep
      · cases hstep
      · next bytes rest hcallbacks =>
          cases hstep
          exact ⟨horderly.piece hcallbacks, horderly.kept_piece hcallbacks,
            horderly.kept_piece_lt hcallbacks⟩
  | complete =>
      simp only [bridge, bridgeStep] at hstep
      split_ifs at hstep with hreturned
      cases hstep
      refine ⟨⟨fun hmore => absurd hreturned.1 hmore, fun hmore => absurd hreturned.1 hmore,
        horderly.drained, horderly.capacity⟩, fun _ => rfl, fun hfull => absurd trivial hfull⟩
  | read =>
      simp only [bridge, bridgeStep] at hstep
      split_ifs at hstep with hended
      obtain ⟨⟨text, channel⟩, hread, rfl⟩ := Option.map_eq_some_iff.mp hstep
      obtain ⟨hitems, hcompletion, hcapacity⟩ := BoundedChannel.tryRead_eq_some hread
      refine ⟨⟨fun hmore => hcompletion.trans (horderly.writable hmore), horderly.called,
        fun hsome => absurd hended hsome, hcapacity.trans horderly.capacity⟩, fun _ => ?_,
        fun hfull => absurd trivial hfull⟩
      simp [Bridge.kept, hitems]
  | finish =>
      simp only [bridge, bridgeStep] at hstep
      split_ifs at hstep with hend
      cases hstep
      have hnone : s.callbacks = [] := by
        by_contra hmore
        have hrunning := horderly.called hmore
        rw [hend.2.2.2] at hrunning
        cases hrunning
      exact ⟨⟨horderly.writable, horderly.called, fun _ => ⟨hnone, hend.2.1⟩,
        horderly.capacity⟩, fun _ => rfl, fun hfull => absurd trivial hfull⟩

/-- Nothing is lost yet, or else the texts have become fewer. -/
def Bridge.Keeps (all : List String) (s : Bridge) : Prop :=
  s.Orderly ∧ (s.kept = all ∨ s.kept.length < all.length)

theorem Bridge.Keeps.step {all : List String} {s next : Bridge} {act : BridgeAct}
    (hkeeps : s.Keeps all) (hstep : bridge.step s act = some next) :
    next.Keeps all ∧
      (next.kept.length < all.length ↔ s.kept.length < all.length ∨ ¬ FindsRoom s act) := by
  obtain ⟨horderly, hkept⟩ := hkeeps
  obtain ⟨hnext, hsame, hshorter⟩ := horderly.step hstep
  by_cases hroom : FindsRoom s act
  · rw [Bridge.Keeps, hsame hroom]
    exact ⟨⟨hnext, hkept⟩, by simp [hroom]⟩
  · have hlength : s.kept.length ≤ all.length := by
      rcases hkept with heq | hlt
      · rw [heq]
      · exact hlt.le
    have hlost : next.kept.length < all.length := (hshorter hroom).trans_le hlength
    exact ⟨⟨hnext, Or.inr hlost⟩, by simp [hlost, hroom]⟩

theorem start_keeps (native : NativeResult) :
    (Bridge.start native).Keeps (texts native.pieces) :=
  ⟨start_orderly native, Or.inl rfl⟩

/-- At the end of the iterator the texts kept are those it has yielded. -/
theorem Bridge.Orderly.yielded_eq {s : Bridge} (horderly : s.Orderly) (hended : s.ended ≠ none) :
    s.yielded = s.kept := by
  obtain ⟨hcallbacks, hitems⟩ := horderly.drained hended
  simp [Bridge.kept, hcallbacks, hitems, texts]

/-- A whole run yields every text exactly if each found room. -/
theorem yielded_eq_texts_iff {native : NativeResult} {acts : List BridgeAct} {s : Bridge}
    (hrun : bridge.run (.start native) acts = some s) (hended : s.ended ≠ none) :
    s.yielded = texts native.pieces ↔ bridge.RunMeets FindsRoom (.start native) acts := by
  have hkeeps : s.Keeps (texts native.pieces) :=
    bridge.run_invariant_of_step (fun _ _ _ hkeeps hstep => (hkeeps.step hstep).1)
      (start_keeps native) hrun
  have hlost := bridge.run_flag_iff (P := FindsRoom)
    (F := fun s => s.kept.length < (texts native.pieces).length)
    (fun _ _ _ hkeeps hstep => Bridge.Keeps.step hkeeps hstep) (start_keeps native) hrun
  simp only [kept_start, lt_irrefl, false_or] at hlost
  rw [hkeeps.1.yielded_eq hended, ← not_iff_not, ← hlost]
  rcases hkeeps.2 with heq | hlt
  · simp [heq]
  · exact ⟨fun _ => hlt, fun _ heq => hlt.ne (congrArg List.length heq)⟩

/-! ## The slowest reader -/

/-- The callbacks may all come before the first read. -/
theorem run_pieces (s : Bridge) :
    ∃ t, bridge.run s (List.replicate s.callbacks.length .piece) = some t ∧
      t.callbacks = [] ∧ t.yielded = s.yielded := by
  induction hcallbacks : s.callbacks generalizing s with
  | nil => exact ⟨s, rfl, hcallbacks, rfl⟩
  | cons bytes rest ih =>
      obtain ⟨t, hrun, hnone, hyielded⟩ :=
        ih { s with callbacks := rest, channel := onPiece s.channel bytes } rfl
      refine ⟨t, ?_, hnone, hyielded⟩
      rw [List.length_cons, List.replicate_succ, bridge.run_cons_of_step]
      · exact hrun
      · simp only [bridge, bridgeStep, hcallbacks]

/-- With more texts than the channel has entries, some run loses one. -/
theorem exists_lossy_run {native : NativeResult} (hmany : 256 < (texts native.pieces).length) :
    ∃ acts s, bridge.run (.start native) acts = some s ∧ s.ended ≠ none ∧
      s.yielded ≠ texts native.pieces := by
  have hpreserve : ∀ s act next, Bridge.Keeps (texts native.pieces) s →
      bridge.step s act = some next → _ := fun _ _ _ hkeeps hstep => Bridge.Keeps.step hkeeps hstep
  obtain ⟨t, hfirst, hnone, hyielded⟩ := run_pieces (.start native)
  have hkeeps := bridge.run_invariant_of_step
    (fun s act next hkeeps hstep => (hpreserve s act next hkeeps hstep).1)
    (start_keeps native) hfirst
  have hsound := bridge.run_invariant_of_step
    (fun _ _ _ hsound hstep => Bridge.Sound.step hsound hstep) (start_sound native) hfirst
  have hlost : t.kept.length < (texts native.pieces).length := by
    have hbounded := t.channel.bounded
    have hitems : t.kept = t.channel.items := by simp [Bridge.kept, hnone, hyielded, texts,
      Bridge.start]
    rw [hkeeps.1.capacity] at hbounded
    rw [hitems]
    omega
  obtain ⟨acts, s, hrest, hended⟩ := exists_complete_run hsound
  have hs := bridge.run_invariant_of_step
    (fun s act next hkeeps hstep => (hpreserve s act next hkeeps hstep).1) hkeeps hrest
  have hstill := (bridge.run_flag_iff hpreserve hkeeps hrest).mpr (Or.inl hlost)
  have hended : s.ended ≠ none := Option.isSome_iff_ne_none.mp hended
  refine ⟨_, s, (bridge.run_append_of_run hfirst acts).trans hrest, hended, ?_⟩
  rw [hs.1.yielded_eq hended]
  exact fun heq => hstill.ne (congrArg List.length heq)

/-- While no more texts are left than the channel has entries, each finds room. -/
theorem findsRoom_of_le {s : Bridge} (horderly : s.Orderly) (hfew : s.kept.length ≤ 256)
    (act : BridgeAct) : FindsRoom s act := by
  cases act with
  | piece =>
      intro bytes hbytes hempty
      obtain ⟨rest, hcallbacks⟩ := List.head?_eq_some_iff.mp hbytes
      simp only [Bridge.kept, hcallbacks, texts_cons, if_neg hempty, List.length_append,
        List.length_singleton] at hfew
      rw [horderly.capacity]
      omega
  | complete => trivial
  | read => trivial
  | finish => trivial

theorem yielded_of_le {native : NativeResult} (hfew : (texts native.pieces).length ≤ 256)
    {acts : List BridgeAct} {s : Bridge} (hrun : bridge.run (.start native) acts = some s)
    (hended : s.ended ≠ none) : s.yielded = texts native.pieces := by
  have hall : s.Orderly ∧ s.kept = texts native.pieces := by
    refine bridge.run_invariant_of_step
      (I := fun s => s.Orderly ∧ s.kept = texts native.pieces) ?_
      ⟨start_orderly native, kept_start native⟩ hrun
    rintro s act next ⟨horderly, hkept⟩ hstep
    obtain ⟨hnext, hsame, -⟩ := horderly.step hstep
    exact ⟨hnext, (hsame (findsRoom_of_le horderly (hkept ▸ hfew) act)).trans hkept⟩
  rw [hall.1.yielded_eq hended, hall.2]

/-- The iterator yields every text of a run exactly if each found room when it was written, and
does so in every run exactly if there are no more of them than the channel has entries. -/
theorem yields_every_piece_iff (native : NativeResult) :
    (∀ acts s, bridge.run (.start native) acts = some s → s.ended ≠ none →
      (s.yielded = texts native.pieces ↔ bridge.RunMeets FindsRoom (.start native) acts)) ∧
    ((∀ acts s, bridge.run (.start native) acts = some s → s.ended ≠ none →
      s.yielded = texts native.pieces) ↔ (texts native.pieces).length ≤ 256) := by
  refine ⟨fun _ _ hrun hended => yielded_eq_texts_iff hrun hended, ?_, ?_⟩
  · intro hyields
    by_contra hmany
    obtain ⟨acts, s, hrun, hended, hlost⟩ := exists_lossy_run (not_le.mp hmany)
    exact hlost (hyields acts s hrun hended)
  · exact fun hfew _ _ hrun hended => yielded_of_le hfew hrun hended

/-- A reader that comes after 257 pieces has lost one. -/
theorem piece_dropped :
    ∃ native : NativeResult, (∀ bytes ∈ native.pieces, ptrToStringUTF8 bytes ≠ "") ∧
      ∃ acts s, bridge.run (.start native) acts = some s ∧ s.ended ≠ none ∧
        s.yielded ≠ native.pieces.map ptrToStringUTF8 := by
  have hletter : ptrToStringUTF8 [0x61] = "a" := by decide
  have htexts : ∀ n, texts (List.replicate n [0x61]) =
      (List.replicate n [0x61]).map ptrToStringUTF8 := by
    intro n
    simp [texts, hletter]
  have hmany : 256 < (texts (List.replicate 257 [0x61])).length := by
    rw [htexts, List.length_map, List.length_replicate]
    decide
  refine ⟨⟨List.replicate 257 [0x61], 0⟩, ?_, ?_⟩
  · intro bytes hbytes
    rw [List.eq_of_mem_replicate hbytes, hletter]
    decide
  · rw [← htexts]
    exact exists_lossy_run hmany

/-! ## Characters cut in two -/

theorem flatMap_texts (pieces : List (List UInt8)) :
    (texts pieces).flatMap String.toList =
      pieces.flatMap fun bytes => ({} : Utf8State).decode (bytes.takeWhile (· ≠ 0)) := by
  induction pieces with
  | nil => rfl
  | cons bytes pieces ih =>
      have hchars : (ptrToStringUTF8 bytes).toList =
          ({} : Utf8State).decode (bytes.takeWhile (· ≠ 0)) := String.toList_ofList
      rw [texts_cons, List.flatMap_append, ih, List.flatMap_cons, ← hchars]
      split_ifs with hempty
      · rw [hempty]
        rfl
      · simp

/-- Decoded one by one, pieces have no fewer characters than bytes that can begin one. -/
theorem leads_flatten_le (pieces : List (List UInt8)) :
    leads pieces.flatten ≤ (pieces.flatMap ({} : Utf8State).decode).length := by
  induction pieces with
  | nil => exact le_rfl
  | cons bytes pieces ih =>
      have hpiece := leads_le_length_decode within_start bytes
      rw [List.flatten_cons, leads_append, List.flatMap_cons, List.length_append]
      omega

/-- They have more as soon as one begins inside of a character. -/
theorem leads_flatten_lt {pieces : List (List UInt8)} {byte : UInt8} {rest : List UInt8}
    (hpiece : byte :: rest ∈ pieces) (hbyte : isContinuation byte = true) :
    leads pieces.flatten < (pieces.flatMap ({} : Utf8State).decode).length := by
  obtain ⟨front, behind, rfl⟩ := List.append_of_mem hpiece
  have hfront := leads_flatten_le front
  have hbehind := leads_flatten_le behind
  have hinside := leads_lt_length_decode hbyte rest
  simp only [List.flatten_append, List.flatten_cons, leads_append, List.flatMap_append,
    List.flatMap_cons, List.length_append]
  omega

/-- Pieces that begin with characters are decoded as the text is. -/
theorem flatMap_decode {pieces : List (List UInt8)} {text : List Char}
    (hbytes : pieces.flatten = text.flatMap String.utf8EncodeChar)
    (hwhole : ∀ piece ∈ pieces, ∀ byte ∈ piece.head?, isContinuation byte = false) :
    pieces.flatMap ({} : Utf8State).decode = text := by
  induction pieces generalizing text with
  | nil =>
      cases text with
      | nil => rfl
      | cons c text =>
          obtain ⟨byte, rest, hshape, -, -⟩ := utf8EncodeChar_shape c
          rw [List.flatMap_cons, hshape] at hbytes
          cases hbytes
  | cons piece pieces ih =>
      have hrest : ∀ byte ∈ pieces.flatten.head?, isContinuation byte = false := by
        intro byte hbyte
        rw [List.head?_flatten] at hbyte
        obtain ⟨other, hother, hhead⟩ := List.exists_of_findSome?_eq_some hbyte
        exact hwhole other (List.mem_cons_of_mem _ hother) byte hhead
      obtain ⟨first, second, rfl, hfirst, hsecond⟩ := utf8Encode_split hbytes.symm hrest
      have hdecoded := decode_utf8Encode first []
      rw [List.append_nil, hfirst] at hdecoded
      rw [List.flatMap_cons, hdecoded, ih hsecond.symm fun other hother =>
        hwhole other (List.mem_cons_of_mem _ hother)]
      simp [decode]

/-- Where no piece was lost, the fragments make up the text exactly if no piece begins inside
of a character. -/
theorem fragments_eq_text_iff (native : NativeResult) (text : List Char)
    (acts : List BridgeAct) (s : Bridge) (hnul : '\x00' ∉ text)
    (hbytes : native.pieces.flatten = text.flatMap String.utf8EncodeChar)
    (hrun : bridge.run (.start native) acts = some s)
    (hended : s.ended ≠ none) (hroom : bridge.RunMeets FindsRoom (.start native) acts) :
    s.yielded.flatMap String.toList = text ↔
      ∀ piece ∈ native.pieces, ∀ byte ∈ piece.head?, isContinuation byte = false := by
  have hnonzero : ∀ piece ∈ native.pieces, piece.takeWhile (· ≠ 0) = piece := by
    intro piece hpiece
    rw [List.takeWhile_eq_self_iff]
    intro byte hbyte
    have hmem : byte ∈ text.flatMap String.utf8EncodeChar :=
      hbytes ▸ List.mem_flatten_of_mem hpiece hbyte
    obtain ⟨c, hc, hin⟩ := List.mem_flatMap.mp hmem
    refine decide_eq_true ?_
    rintro rfl
    rw [zero_mem_utf8EncodeChar] at hin
    exact hnul (hin ▸ hc)
  have hyielded := (yielded_eq_texts_iff hrun hended).mpr hroom
  have hfragments : s.yielded.flatMap String.toList =
      native.pieces.flatMap ({} : Utf8State).decode := by
    rw [hyielded, flatMap_texts]
    exact List.flatMap_congr fun piece hpiece => by rw [hnonzero piece hpiece]
  rw [hfragments]
  constructor
  · intro htext piece hpiece byte hbyte
    by_contra hcontinues
    obtain ⟨rest, rfl⟩ := List.head?_eq_some_iff.mp hbyte
    have hmore := leads_flatten_lt hpiece (Bool.eq_true_of_not_eq_false hcontinues)
    rw [htext, hbytes, leads_utf8Encode] at hmore
    exact lt_irrefl _ hmore
  · exact flatMap_decode hbytes

theorem fragments_eq_text_accent :
    ∃ s, bridge.run (.start ⟨[[0x61, 0xC3, 0xA9]], 0⟩) [.piece, .complete, .read, .finish] =
        some s ∧
      (s.yielded.flatMap String.toList = ['a', 'é'] ↔
        ∀ piece ∈ [[(0x61 : UInt8), 0xC3, 0xA9]], ∀ byte ∈ piece.head?,
          isContinuation byte = false) := by
  refine ⟨_, rfl, fragments_eq_text_iff ⟨[[0x61, 0xC3, 0xA9]], 0⟩ ['a', 'é']
    [.piece, .complete, .read, .finish] _ (by decide) (by decide) rfl (by decide) ?_⟩
  exact (yielded_eq_texts_iff rfl (by decide)).mp (by decide)

/-- The two bytes of a letter in two pieces are replaced, both of them. -/
theorem accent_replaced :
    ∃ (native : NativeResult) (acts : List BridgeAct) (s : Bridge),
      native.pieces.flatten = ['é'].flatMap String.utf8EncodeChar ∧
      bridge.run (.start native) acts = some s ∧ s.ended ≠ none ∧
      bridge.RunMeets FindsRoom (.start native) acts ∧
      s.yielded = ["\uFFFD", "\uFFFD"] ∧ s.yielded.flatMap String.toList ≠ ['é'] := by
  refine ⟨⟨[[0xC3], [0xA9]], 0⟩, [.piece, .piece, .complete, .read, .read, .finish], _,
    by decide, rfl, by decide, ?_, by decide, by decide⟩
  exact (yielded_eq_texts_iff rfl (by decide)).mp (by decide)

end NativeInterop.LlamaLanguageModel
