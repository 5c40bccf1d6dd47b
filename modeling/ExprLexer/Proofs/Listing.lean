import ExprLexer.CommandLine
import ExprLexer.SourceFile
import ExprLexer.Proofs.Failures
import ExprLexer.Proofs.Layout
import ExprLexer.Proofs.Reports

/-!
# The listing of a source

A run lists the results of its source in order, each behind the complaints about it, through the end or up to the first
failure that cannot be laid out: `CommandLine.list_lists`. From this follow the two texts that a run writes and its exit
code: `CommandLine.run_file`.
-/
namespace ExprLexer

variable {source path : String}

/-- What is written when the sink of a run hears of a result. -/
def ScanResult.complaints (x : ScanResult) : List Write := x.reports.map fun d => ⟨.err, d.text ++ "\n"⟩

/-- What is written for the results that are left, and the exit code then, after a run in which something or nothing
has failed. -/
inductive Lists (source path : String) : Bool → List ScanResult → List Write → UInt32 → Prop
  | ended {failed t} (hend : t.kind = .endOfInput) :
      Lists source path failed [.ok t] [⟨.out, "=== End of Tokens ===\n"⟩] (if failed then 1 else 0)
  | token {failed t xs ws code} (hend : t.kind ≠ .endOfInput) (h : Lists source path failed xs ws code) :
      Lists source path failed (.ok t :: xs)
        (ScanResult.complaints (.ok t) ++ ⟨.out, t.listing ++ "\n"⟩ :: ws) code
  | failure {failed e text xs ws code} (hrender : e.render source path = .ok text)
      (h : Lists source path true xs ws code) :
      Lists source path failed (.error e :: xs) (⟨.err, text⟩ :: ws) code
  | aborted {failed e error xs} (hrender : e.render source path = .error error) :
      Lists source path failed (.error e :: xs) [⟨.err, error.message ++ "\n"⟩] 101

/-! ## The loop -/

theorem Transcript.foldl_report (t : Transcript) (ds : List Diagnostic) :
    ds.foldl Sink.report t = ⟨(ds.map fun d => ⟨.err, d.text ++ "\n"⟩).reverse ++ t.writes, t.failed⟩ := by
  induction ds generalizing t with
  | nil => rfl
  | cons d ds ih =>
      rw [List.foldl_cons, ih, List.map_cons, List.reverse_cons, List.append_assoc]
      rfl

namespace CommandLine

variable {l l' : Lexer Transcript} {x : ScanResult} (h : l.next = (x, l'))

include h

theorem listResults_eq : listResults path l =
    if x.isEnd then (l'.sink.write .out "=== End of Tokens ===\n").finish (if l'.sink.failed then 1 else 0)
    else
      match l'.sink.tell l'.source path x with
      | .ok t => listResults path { l' with sink := t }
      | .error error => (l'.sink.write .err (error.message ++ "\n")).finish 101 := by
  rw [listResults]
  split
  next e =>
    cases h.symm.trans e
    by_cases hx : x.isEnd
    · exact (dif_pos hx).trans (if_pos hx).symm
    · exact (dif_neg hx).trans (if_neg hx).symm

/-- What one call of `next` adds to a listing, whatever was written before. -/
theorem listResults_next (hx : x.isEnd = false) (hsource : l'.source = l.source) {xs : List ScanResult}
    (hrest : ∀ t : Transcript, ∃ ws code, Lists l.source path t.failed xs ws code ∧
      listResults path { l' with sink := t } = ⟨t.writes.reverse ++ ws, code⟩) :
    ∃ ws code, Lists l.source path l.sink.failed (x :: xs) ws code ∧
      listResults path l = ⟨l.sink.writes.reverse ++ ws, code⟩ := by
  have hsink := l.next_sink
  rw [h, Transcript.foldl_report] at hsink
  rw [listResults_eq h, if_neg (Bool.eq_false_iff.1 hx)]
  cases x with
  | ok t =>
      have htold : l'.sink.tell l'.source path (.ok t) = .ok (l'.sink.write .out (t.listing ++ "\n")) := rfl
      obtain ⟨ws, code, hlists, hlisted⟩ := hrest (l'.sink.write .out (t.listing ++ "\n"))
      rw [hsink] at hlists
      refine ⟨_, code, .token (ScanResult.isEnd_ok_eq_false.1 hx) hlists, ?_⟩
      rw [htold]
      dsimp only
      rw [hlisted, hsink]
      simp [Transcript.write, ScanResult.complaints]
  | error e =>
      cases hrender : e.render l.source path with
      | ok text =>
          have htold : l'.sink.tell l'.source path (.error e) =
              .ok { l'.sink.write .err text with failed := true } := by
            rw [Transcript.tell, hsource, hrender]
            rfl
          obtain ⟨ws, code, hlists, hlisted⟩ := hrest { l'.sink.write .err text with failed := true }
          refine ⟨_, code, .failure hrender hlists, ?_⟩
          rw [htold]
          dsimp only
          rw [hlisted, hsink]
          simp [Transcript.write, ScanResult.reports]
      | error error =>
          have herror : l'.sink.tell l'.source path (.error e) = .error error := by
            rw [Transcript.tell, hsource, hrender]
            rfl
          refine ⟨_, _, .aborted hrender, ?_⟩
          rw [herror, hsink]
          simp [Transcript.write, Transcript.finish, ScanResult.reports]

omit h in
theorem listResults_lists {p : Position} {cs : List Char} {xs : List ScanResult} (h : Scans p cs xs)
    (hl : l.cursor = ⟨p, cs⟩) : ∃ ws code, Lists l.source path l.sink.failed xs ws code ∧
      listResults path l = ⟨l.sink.writes.reverse ++ ws, code⟩ := by
  induction h generalizing l with
  | @last p gap hgap =>
      have hend : ScanResult.isEnd (.ok (.endOfInput (p.after gap))) := rfl
      refine ⟨_, _, .ended rfl, ?_⟩
      rw [listResults_eq (Lexer.next_of_trivia hgap hl), if_pos hend, Transcript.write, Transcript.finish,
        List.reverse_cons]
      rfl
  | @read p start stop gap rest x xs hgap hx hruns hstart hstop h ih =>
      have hnext := Lexer.next_of_lexeme hgap hx hruns hstart hstop hl
      refine listResults_next hnext (x.isEnd_result_read _) rfl ?_
      intro t
      exact ih (l := { l.proceed ⟨stop, rest⟩ (x.read ⟨start, stop⟩) with sink := t }) rfl

end CommandLine

/-- A listing begins with its path and goes on with the results of its source. -/
theorem CommandLine.list_lists (path source : String) :
    ∃ ws code, Lists source path false (results source) ws code ∧
      list path source = ⟨⟨.out, "=== Lexical Analysis of " ++ path ++ " ===\n"⟩ :: ws, code⟩ :=
  listResults_lists (l := .ofSource source ⟨[⟨.out, "=== Lexical Analysis of " ++ path ++ " ===\n"⟩], false⟩)
    (scans_results source) rfl

/-! ## The two texts -/

@[simp] theorem textTo_nil (channel : Channel) : textTo channel [] = "" := rfl

@[simp] theorem textTo_cons_self (channel : Channel) (text : String) (ws : List Write) :
    textTo channel (⟨channel, text⟩ :: ws) = text ++ textTo channel ws := by
  simp [textTo]

theorem textTo_cons_of_ne {channel other : Channel} (h : other ≠ channel) (text : String) (ws : List Write) :
    textTo channel (⟨other, text⟩ :: ws) = textTo channel ws := by
  simp [textTo, h]

theorem textTo_append (channel : Channel) (ws ws' : List Write) :
    textTo channel (ws ++ ws') = textTo channel ws ++ textTo channel ws' := by
  simp [textTo]

theorem ScanResult.textTo_complaints (x : ScanResult) : textTo .out x.complaints = "" := by
  have hnone : x.complaints.filter (·.channel == .out) = [] := by
    rw [List.filter_eq_nil_iff]
    simp [complaints]
  rw [textTo, hnone]
  rfl

/-- What a run complains of at a result. -/
inductive Complaint (source path : String) : ScanResult → String → Prop
  | unknown {t d} (hkind : t.kind = .unknown) (h : Diagnostic.Reports d t) :
      Complaint source path (.ok t) (d.text ++ "\n")
  | quiet {t} (hkind : t.kind ≠ .unknown) : Complaint source path (.ok t) ""
  | failure {e text} (hrender : e.render source path = .ok text) : Complaint source path (.error e) text

/-- What a run complains of at a result is settled by the result. -/
theorem Complaint.rightUnique (source path : String) : Relator.RightUnique (Complaint source path) := by
  intro x text text' h h'
  cases h with
  | unknown hkind h =>
      cases h' with
      | unknown _ h' => rw [h.unique h']
      | quiet hkind' => exact absurd hkind hkind'
  | quiet hkind =>
      cases h' with
      | unknown hkind' _ => exact absurd hkind' hkind
      | quiet _ => rfl
  | failure hrender =>
      cases h' with
      | failure hrender' => exact Except.ok.inj (hrender.symm.trans hrender')

theorem ScanResult.Reported.complaint {t : Token} (h : Reported (.ok t)) :
    Complaint source path (.ok t) (textTo .err (complaints (.ok t))) := by
  by_cases hkind : t.kind = .unknown
  · have hunknown : unknown? (.ok t) = some t := if_pos hkind
    rw [Reported, hunknown] at h
    obtain ⟨d, ds, hd, hds, hreports⟩ := List.forall₂_cons_right_iff.1 h
    obtain rfl := List.forall₂_nil_right_iff.1 hds
    have htext : textTo .err (complaints (.ok t)) = d.text ++ "\n" := by
      rw [complaints, hreports]
      simp
    rw [htext]
    exact .unknown hkind hd
  · have hreports : reports (.ok t) = [] := if_neg hkind
    rw [complaints, hreports]
    exact .quiet hkind

/-- Listed tokens, each on a line of its own. -/
def listings (xs : List ScanResult) : String :=
  String.join (((xs.filterMap ScanResult.token?).filter (·.kind != .endOfInput)).map (·.listing ++ "\n"))

namespace Lists

variable {failed : Bool} {xs : List ScanResult} {ws : List Write} {code : UInt32}

theorem stdout_eq (h : Lists source path failed xs ws code) (hfits : ∀ e, .error e ∈ xs → e.Fits source) :
    textTo .out ws = listings xs ++ "=== End of Tokens ===\n" := by
  induction h with
  | ended hend => simp [listings, ScanResult.token?, hend]
  | token hend h ih =>
      have hrest := ih fun e he => hfits e (.tail _ he)
      rw [textTo_append, ScanResult.textTo_complaints, textTo_cons_self, hrest]
      simp [listings, ScanResult.token?, hend, String.append_assoc]
  | failure hrender h ih => exact ih fun e he => hfits e (.tail _ he)
  | aborted hrender => exact absurd (hfits _ List.mem_cons_self) (Failure.not_fits_of_error hrender)

theorem stderr_eq (h : Lists source path failed xs ws code) (hfits : ∀ e, .error e ∈ xs → e.Fits source)
    (hreported : ∀ x ∈ xs, x.Reported) :
    ∃ texts, List.Forall₂ (Complaint source path) xs texts ∧ textTo .err ws = String.join texts := by
  induction h with
  | ended hend => exact ⟨[""], .cons (.quiet (by rw [hend]; nofun)) .nil, rfl⟩
  | token hend h ih =>
      obtain ⟨ht, hxs⟩ := List.forall_mem_cons.1 hreported
      obtain ⟨texts, htexts, hws⟩ := ih (fun e he => hfits e (.tail _ he)) hxs
      refine ⟨_, .cons ht.complaint htexts, ?_⟩
      rw [textTo_append, textTo_cons_of_ne (show Channel.out ≠ .err by decide), hws, String.join_cons]
  | failure hrender h ih =>
      obtain ⟨texts, htexts, hws⟩ := ih (fun e he => hfits e (.tail _ he)) fun x hx => hreported x (.tail _ hx)
      refine ⟨_, .cons (.failure hrender) htexts, ?_⟩
      rw [textTo_cons_self, hws, String.join_cons]
  | aborted hrender => exact absurd (hfits _ List.mem_cons_self) (Failure.not_fits_of_error hrender)

/-- A run goes on through the end unless a failure cannot be laid out, and then it stops there. -/
theorem ends (h : Lists source path failed xs ws code) :
    (∀ e, .error e ∈ xs → e.Fits source) ∧ (∃ told, ws = told ++ [⟨.out, "=== End of Tokens ===\n"⟩]) ∧
      code = (if failed || xs.any ScanResult.isError then 1 else 0) ∨
    (∃ e, .error e ∈ xs ∧ ¬ e.Fits source) ∧
      (∃ told error, ws = told ++ [⟨.err, LayoutError.message error ++ "\n"⟩]) ∧ code = 101 := by
  induction h with
  | ended hend => exact .inl ⟨by simp, ⟨[], rfl⟩, by simp [ScanResult.isError]⟩
  | token hend h ih =>
      rcases ih with ⟨hfits, ⟨told, rfl⟩, rfl⟩ | ⟨⟨e, he, hfits⟩, ⟨told, error, rfl⟩, rfl⟩
      · refine .inl ⟨by simpa using hfits, ?_, by simp [ScanResult.isError]⟩
        exact ⟨_, (List.append_assoc _ (_ :: told) _).symm⟩
      · exact .inr ⟨⟨e, .tail _ he, hfits⟩, ⟨_, error, (List.append_assoc _ (_ :: told) _).symm⟩, rfl⟩
  | failure hrender h ih =>
      rcases ih with ⟨hfits, ⟨told, rfl⟩, rfl⟩ | ⟨⟨e, he, hfits⟩, ⟨told, error, rfl⟩, rfl⟩
      · refine .inl ⟨?_, ⟨_ :: told, rfl⟩, by simp [ScanResult.isError]⟩
        intro e he
        rcases List.mem_cons.1 he with he | he
        · cases he
          exact (Failure.exists_render_iff _ source path).1 ⟨_, hrender⟩
        · exact hfits e he
      · exact .inr ⟨⟨e, .tail _ he, hfits⟩, ⟨_ :: told, error, rfl⟩, rfl⟩
  | aborted hrender =>
      exact .inr ⟨⟨_, List.mem_cons_self, Failure.not_fits_of_error hrender⟩, ⟨[], _, rfl⟩, rfl⟩

end Lists

theorem reported_of_mem_results {x : ScanResult} (hx : x ∈ results source) : x.Reported := by
  cases hend : x.isEnd with
  | true =>
      cases x with
      | ok t => exact ScanResult.reported_of_ne (by rw [ScanResult.isEnd_ok.1 hend]; nofun)
      | error e => cases hend
  | false =>
      obtain ⟨before, lexeme, rest, stop, _, _, rfl⟩ := (scans_results source).exists_lexeme x hx hend
      exact lexeme.reported_read _

theorem CommandLine.stdout_list (path : String) (hfits : ∀ e, .error e ∈ results source → e.Fits source) :
    (list path source).stdout =
      "=== Lexical Analysis of " ++ path ++ " ===\n" ++ listings (results source) ++ "=== End of Tokens ===\n" := by
  obtain ⟨ws, code, hlists, hlist⟩ := list_lists path source
  have hstdout := textTo_cons_self .out ("=== Lexical Analysis of " ++ path ++ " ===\n") ws
  rw [hlists.stdout_eq hfits, ← String.append_assoc] at hstdout
  rw [hlist]
  exact hstdout

/-! ## The run -/

/-- The only file of a folder is found by its name. -/
theorem Folder.readBytes_of_name {name : String} (bytes : ByteArray) (hslash : '/' ∉ name.toList)
    (hnul : '\x00' ∉ name.toList) (hdots : name.toList ∉ [[], ['.'], ['.', '.']])
    (hlength : utf8Length name.toList ≤ maxNameLength) : (Folder.mk [(name, bytes)]).readBytes name = .ok bytes := by
  have hparts : name.toList.splitOn '/' = [name.toList] := by
    apply List.splitOnP_eq_singleton
    intro c hc
    exact beq_eq_false_iff_ne.2 fun h => hslash (h ▸ hc)
  have hshort : utf8Length name.toList ≤ maxPathLength := Nat.le_trans hlength (by decide)
  have hhead : name.toList.head? ≠ some '/' := fun h => hslash (List.mem_of_mem_head? h)
  simp only [List.mem_cons, not_or] at hdots
  simp [readBytes, follow, step, hparts, hhead, hnul, hdots, Nat.not_lt.2 hshort, Nat.not_lt.2 hlength]

theorem decodeSource_of_utf8 (s : String) : decodeSource s.toList.utf8Encode = .ok s := by
  have hs : s.toList.utf8Encode = s.toByteArray := String.utf8Encode_toList
  have hvalid : s.toByteArray.IsValidUTF8 := s.isValidUTF8
  rw [hs, decodeSource, String.fromUTF8?, dif_pos hvalid]
  rfl

theorem decodeSource_of_ne {bytes : ByteArray} (h : ∀ cs : List Char, bytes ≠ cs.utf8Encode) :
    decodeSource bytes = .error .notUtf8 := by
  have hinvalid : ¬ bytes.IsValidUTF8 := fun ⟨cs, hcs⟩ => h cs hcs
  rw [decodeSource, String.fromUTF8?, dif_neg hinvalid]

namespace CommandLine

/-- What a run does with a file that holds some bytes. -/
def outcome (path : String) (bytes : ByteArray) : Output :=
  match decodeSource bytes with
  | .ok source => list path source
  | .error e => refuse ("Error: " ++ (Fault.unreadable path e.reason).message)

section Run

variable {m : Type → Type} [Monad m] [LawfulMonad m] {readBytes : String → m (Except String ByteArray)}
  {bytes : ByteArray} (hbytes : readBytes path = pure (.ok bytes))

include hbytes

theorem run_of_bytes (more : List String) :
    run (readSource readBytes) (path :: more) = pure (outcome path bytes) := by
  simp only [run, readSource, hbytes, pure_bind, outcome]
  cases decodeSource bytes <;> rfl

/-- A run whose first argument leads to a file. If the file holds no text, the run only says that it cannot be opened.
If it holds a text whose malformed numbers can all be laid out, the run lists its tokens on one channel and complains
of its unknown characters and its malformed numbers on the other, and has failed if there are malformed numbers. -/
theorem run_file : ∃ output : Output, (∀ more, run (readSource readBytes) (path :: more) = pure output) ∧
    ((∀ cs : List Char, bytes ≠ cs.utf8Encode) →
      output.stdout = "" ∧ output.stderr = "Error: cannot open file '" ++ path ++ "'\n" ∧ output.exitCode = 1) ∧
    ∀ s : String, bytes = s.toList.utf8Encode → (∀ e ∈ malformedNumbers s, e.Fits s) →
      output.stdout = "=== Lexical Analysis of " ++ path ++ " ===\n" ++
        String.join ((((results s).filterMap ScanResult.token?).filter (·.kind != .endOfInput)).map
          (·.listing ++ "\n")) ++ "=== End of Tokens ===\n" ∧
      (∃ texts, List.Forall₂ (Complaint s path) (results s) texts ∧ output.stderr = String.join texts) ∧
      output.exitCode = if (results s).any ScanResult.isError then 1 else 0 := by
  refine ⟨outcome path bytes, run_of_bytes hbytes, ?_, ?_⟩
  · intro hinvalid
    rw [outcome, decodeSource_of_ne hinvalid]
    refine ⟨rfl, ?_, rfl⟩
    have hstderr : (refuse ("Error: " ++ (Fault.unreadable path ReadError.notUtf8.reason).message)).stderr =
        "Error: " ++ ("cannot open file '" ++ path ++ "'") ++ "\n" ++ "" := textTo_cons_self .err _ []
    have hopen : "Error: cannot open file '" = "Error: " ++ "cannot open file '" := rfl
    have hclose : "'\n" = "'" ++ "\n" := rfl
    rw [hopen, hclose]
    simpa only [String.append_assoc, String.append_empty] using hstderr
  · intro s hs hfits
    obtain ⟨ws, code, hlists, hlist⟩ := list_lists path s
    have hfits' : ∀ e, .error e ∈ results s → e.Fits s := fun e he => hfits e (mem_malformedNumbers.2 he)
    have houtcome : outcome path bytes = list path s := by rw [outcome, hs, decodeSource_of_utf8]
    rw [houtcome]
    refine ⟨stdout_list path hfits', ?_⟩
    rw [hlist]
    constructor
    · have hstderr := textTo_cons_of_ne (show Channel.out ≠ .err by decide)
        ("=== Lexical Analysis of " ++ path ++ " ===\n") ws
      obtain ⟨texts, htexts, hws⟩ := hlists.stderr_eq hfits' fun x hx => reported_of_mem_results hx
      exact ⟨texts, htexts, hstderr.trans hws⟩
    · rcases hlists.ends with ⟨_, _, hcode⟩ | ⟨⟨e, he, hfar⟩, _⟩
      · rwa [Bool.false_or] at hcode
      · exact absurd (hfits' e he) hfar

end Run

theorem run_file_in_folder :
    let nines := String.ofList (List.replicate 310 '9')
    let source := "@ " ++ nines
    let folder : Folder := ⟨[("prog.mml", source.toList.utf8Encode)]⟩
    let readBytes : String → Id (Except String ByteArray) := fun path =>
      pure ((folder.readBytes path).mapError ReadError.reason)
    let e : Failure := ⟨.malformedNumber nines, ⟨2, 1, 3⟩⟩
    let warning := "Warning [Line 1, Col 1]: Unknown symbol '@'\n"
    let shown := "Error: MalformedNumber (Invalid number: `" ++ nines ++
      "`, expected digits with at most one `.` that fit in a 64-bit float)\n-> prog.mml\n" ++
      "  |\n1 | @ " ++ nines ++ "\n  | --^\n"
    malformedNumbers source = [e] ∧ e.Fits source ∧
    ∃ output : Output, (∀ more, run (readSource readBytes) ("prog.mml" :: more) = pure output) ∧
      output.stdout = "=== Lexical Analysis of prog.mml ===\nUnknown\t'@'\t(1:1)\n=== End of Tokens ===\n" ∧
      output.stderr = warning ++ shown ∧ output.exitCode = 1 := by
  -- the numeral gets a name, so that nothing unfolds it
  generalize hcs : List.replicate 310 '9' = cs
  intro nines source folder readBytes e warning shown
  have hvalue : numeralValue? cs = none := by rw [← hcs]; decide +kernel
  have hvalid : (Lexeme.numeral cs).Valid := hcs ▸ Lexeme.valid_numeral_replicate 309
  have hshown : ((Line.mk 1 ('@' :: ' ' :: cs) 2).excerpt e.position.column.toNat).map
      (e.header ++ "-> " ++ "prog.mml" ++ "\n" ++ ·) = .ok shown := by
    simp only [e, shown, nines, ← hcs]
    decide +kernel
  have hfound : folder.readBytes "prog.mml" = .ok source.toList.utf8Encode :=
    Folder.readBytes_of_name _ (by decide) (by decide) (by decide) (by decide)
  have hbytes : readBytes "prog.mml" = pure (.ok source.toList.utf8Encode) :=
    congrArg (fun r => pure (r.mapError ReadError.reason)) hfound
  have hsource : source = String.ofList (['@'] ++ [' '] ++ cs) := (@String.ofList_append ['@', ' '] cs).symm
  have hstray : (Lexeme.unknown '@').Valid := .unknown ⟨rfl, rfl, fun o => by cases o <;> decide⟩
  have hresults : results source = [_, .error e, .ok _] :=
    hsource ▸ results_before_malformed hstray hvalid hvalue
  have hmalformed : malformedNumbers source = [e] := by rw [malformedNumbers, hresults]; rfl
  have hnewline : '\n' ∉ cs := fun h => absurd (hvalid.isBlank_eq_false _ h) (by decide)
  have hline : lineAt? source e.position.offset = some ⟨1, '@' :: ' ' :: (cs ++ []), 2⟩ :=
    @lineAt?_of_text source ['@', ' '] cs [] (by simp [hsource]) hvalid.ne_nil hnewline
  have hrender : e.render source "prog.mml" = .ok shown := by
    rw [Failure.render, hline, List.append_nil]
    exact hshown
  have hfits : e.Fits source := (Failure.exists_render_iff e source "prog.mml").1 ⟨_, hrender⟩
  obtain ⟨output, hrun, _, hlisted⟩ := run_file hbytes
  obtain ⟨hstdout, ⟨texts, htexts, hstderr⟩, hcode⟩ := hlisted source rfl (by simpa [hmalformed] using hfits)
  have hcomplaints : List.Forall₂ (Complaint source "prog.mml") (results source) [warning, shown, ""] := by
    have hend : TokenKind.endOfInput ≠ .unknown := by decide
    rw [hresults]
    refine .cons ?_ (.cons (.failure hrender) (.cons (.quiet hend) .nil))
    exact @Complaint.unknown _ _ _ ⟨.start, '@'⟩ rfl ⟨rfl, rfl⟩
  obtain rfl := (Complaint.rightUnique source "prog.mml").forall₂ htexts hcomplaints
  refine ⟨hmalformed, hfits, output, hrun, hstdout.trans ?_, hstderr.trans ?_, hcode.trans ?_⟩
  · rw [hresults]
    rfl
  · simp [String.join_cons]
  · rw [hresults]
    rfl

end CommandLine
end ExprLexer
