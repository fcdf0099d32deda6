import Fex.Client.WarList
import Fex.Client.Webhooks
import Fex.Engine.JsonWriter
import Fex.Game.SaveTeam
import Fex.Lib.JsonInverse
import Fex.Lib.Text

/-!
# The log of the war list

Model of `SendDiscordLog` and `SendDiscordLogRemoval` up to the request with the payload.  The time
and the conversion of a colour, which is made in floating point, are parameters.
-/

namespace Fex.Client.WarLog

open Fex.Base Fex.Engine.Server Fex.Lib Fex.Client.Webhooks

open CServer (ascii)

/-! ## Functions -/

/-- What the functions read of the configuration and of the war list. -/
structure Settings where
  m_ClDiscordWebhooks : Bool
  m_ClDiscordWebhookScheme : CString
  m_Webhooks : List WebhookInfo
  m_WarTypes : List CWarType

/-- `sscanf` with `%31[^:]:%d`, if both are converted. -/
def scanToken (pToken : CString) : Option (CString × Int) :=
  let aType := (pToken.takeWhile (· ≠ 58)).take 31
  if aType = [] then none
  else
    match pToken.drop aType.length with
    | 58 :: s => (Game.SaveTeam.scanInts 1 s).head?.map fun WebhookIndex => (aType, WebhookIndex)
    | _ => none

/-- The loop over the tokens of the scheme. -/
def webhookLoop (m_Webhooks : List WebhookInfo) (pWarType : CString) (pWebhookUrl : Option CString) :
    List CString → Option CString
  | [] => pWebhookUrl
  | pToken :: tokens =>
      match scanToken pToken with
      | none => webhookLoop m_Webhooks pWarType pWebhookUrl tokens
      | some (aType, WebhookIndex) =>
          if aType = pWarType then GetWebhookUrl m_Webhooks (WebhookIndex - 1)
          else if aType.head? = pWarType.head? ∧ pWebhookUrl = none then
            webhookLoop m_Webhooks pWarType (GetWebhookUrl m_Webhooks (WebhookIndex - 1)) tokens
          else webhookLoop m_Webhooks pWarType pWebhookUrl tokens

def webhookUrl (c : Settings) (pWarType : CString) : Option CString :=
  let aScheme := str_copy c.m_ClDiscordWebhookScheme 128
  let pWebhookUrl :=
    webhookLoop c.m_Webhooks pWarType none ((pieces 59 aScheme).filter (· ≠ []))
  match pWebhookUrl with
  | none => GetWebhookUrl c.m_Webhooks 0
  | some url => if url = [] then GetWebhookUrl c.m_Webhooks 0 else some url

def embedColor (ColorToInt : ColorRGBA → Int) (m_WarTypes : List CWarType) (pWarType : CString) :
    Int :=
  match m_WarTypes.find? fun pType => pType.m_aWarName = pWarType with
  | none => 0xffffff
  | some pType => ColorToInt pType.m_Color

def fieldText (name value rest : CString) : CString :=
  ascii "        \x7b \"name\": \"" ++ (name ++ (ascii "\", \"value\": \"" ++ (value ++
    (ascii "\", \"inline\": true \x7d" ++ rest))))

/-- What `snprintf` writes. -/
def jsonPayload (title : CString) (embedColor : Int) (pActor pWarType extraFieldName extraFieldValue
    timeStr : CString) : CString :=
  ascii "\x7b  \"username\": \"FeX Warlog\",  \"embeds\": [    \x7b      \"title\": \"" ++ (title ++
  (ascii "\",      \"color\": " ++ (formatInt embedColor ++ (ascii ",      \"fields\": [" ++
  fieldText (ascii "Actor") pActor (ascii "," ++
  fieldText (ascii "War Type") pWarType (ascii "," ++
  fieldText extraFieldName extraFieldValue (ascii "      ],      \"footer\": \x7b \"text\": \"" ++
  (timeStr ++ ascii "\" \x7d    \x7d  ]\x7d"))))))))

/-- Both functions: the payload if it is sent. -/
def sendLog (title : CString) (ColorToInt : ColorRGBA → Int) (timeStr : CString) (c : Settings)
    (pActor pWarType pTarget pClan : CString) : Option CString :=
  if ¬c.m_ClDiscordWebhooks then none
  else
    match webhookUrl c pWarType with
    | none => none
    | some pWebhookUrl =>
        if pWebhookUrl = [] ∨ pWebhookUrl.length < 5 ∨ ¬ascii "https://" <+: pWebhookUrl then none
        else
          let extraFieldName := if pClan ≠ [] then ascii "Clan" else ascii "Target"
          let extraFieldValue := if pClan ≠ [] then pClan else pTarget
          let payload := jsonPayload title (embedColor ColorToInt c.m_WarTypes pWarType) pActor
            pWarType extraFieldName extraFieldValue timeStr
          if payload.length ≥ 2048 then none else some payload

def SendDiscordLog : (ColorRGBA → Int) → CString → Settings → CString → CString → CString →
    CString → Option CString := sendLog (ascii "War Log Addition")

def SendDiscordLogRemoval : (ColorRGBA → Int) → CString → Settings → CString → CString → CString →
    CString → Option CString := sendLog (ascii "War Log Deletion")

/-! ## The tree -/

def field (name value : CString) : Json :=
  .obj [(ascii "name", .str name), (ascii "value", .str value), (ascii "inline", .bool true)]

def logTree (title : CString) (color : Int) (actor warType extraName extraValue time : CString) :
    Json :=
  .obj [(ascii "username", .str (ascii "FeX Warlog")),
    (ascii "embeds", .arr [.obj [(ascii "title", .str title), (ascii "color", .int color),
      (ascii "fields", .arr [field (ascii "Actor") actor, field (ascii "War Type") warType,
        field extraName extraValue]),
      (ascii "footer", .obj [(ascii "text", .str time)])]])]

/-! ## Fields -/

section

variable (value rest : CString)

/-- What follows the value of a field. -/
def behindValue : CString := ascii "\", \"inline\": true \x7d" ++ rest

/-- What follows the name of a field. -/
def behindName : CString := ascii "\", \"value\": \"" ++ (value ++ behindValue rest)

theorem readName_name : Json.readName (ascii " \"name\": \"" ++ rest) =
    some (ascii "name", ascii " \"" ++ rest) := rfl

theorem readName_value : Json.readName (ascii " \"value\": \"" ++ rest) =
    some (ascii "value", ascii " \"" ++ rest) := rfl

theorem readName_inline : Json.readName (ascii " \"inline\": true \x7d" ++ rest) =
    some (ascii "inline", ascii " true \x7d" ++ rest) := rfl

theorem reads_inline :
    Json.Reads 1 (ascii " true \x7d" ++ rest) (.bool true) (ascii " \x7d" ++ rest) :=
  Json.reads_scalar rfl (by decide) (by decide) (by decide) rfl

theorem skipSpace_field (name : CString) : Json.skipSpace (fieldText name value rest) =
    123 :: (ascii " \"name\": \"" ++ (name ++ behindName value rest)) := rfl

theorem skipSpace_behindName : Json.skipSpace (ascii ", \"value\": \"" ++
    (value ++ behindValue rest)) = 44 :: (ascii " \"value\": \"" ++ (value ++ behindValue rest)) := rfl

theorem skipSpace_quote : Json.skipSpace (ascii " \"" ++ rest) = 34 :: rest := rfl

theorem skipSpace_behindValue : Json.skipSpace (ascii ", \"inline\": true \x7d" ++ rest) =
    44 :: (ascii " \"inline\": true \x7d" ++ rest) := rfl

theorem skipSpace_inline : Json.skipSpace (ascii " \x7d" ++ rest) = 125 :: rest := rfl

theorem skipSpace_name (name : CString) : (Json.skipSpace (ascii " \"name\": \"" ++ name)).head? ≠
    some 125 := by
  rw [show Json.skipSpace (ascii " \"name\": \"" ++ name) = 34 :: (ascii "name\": \"" ++ name) from rfl]
  exact fun h => absurd (Option.some.inj h) (by decide)

end

section

variable {name value rest : CString}

theorem reads_name (hname : Json.Plain name) :
    Json.Reads 1 (ascii " \"" ++ (name ++ behindName value rest)) (.str name)
      (ascii ", \"value\": \"" ++ (value ++ behindValue rest)) :=
  Json.reads_str rfl (Json.readString_plain hname _)

theorem reads_value (hvalue : Json.Plain value) :
    Json.Reads 1 (ascii " \"" ++ (value ++ behindValue rest)) (.str value)
      (ascii ", \"inline\": true \x7d" ++ rest) :=
  Json.reads_str rfl (Json.readString_plain hvalue _)

/-- A field of plain texts is read. -/
theorem reads_field (hname : Json.Plain name) (hvalue : Json.Plain value) :
    Json.Reads 7 (fieldText name value rest) (field name value) rest := by
  have hinline : Json.ReadsMembers 2 (ascii " \"inline\": true \x7d" ++ rest)
      [(ascii "inline", .bool true)] rest :=
    Json.readsMembers_last (readName_inline rest) (reads_inline rest) rfl
  have hboth : Json.ReadsMembers 4 (ascii " \"value\": \"" ++ (value ++ behindValue rest))
      [(ascii "value", .str value), (ascii "inline", .bool true)] rest :=
    Json.readsMembers_cons (readName_value _) (reads_value hvalue) rfl hinline
  have hall : Json.ReadsMembers 6 (ascii " \"name\": \"" ++ (name ++ behindName value rest))
      [(ascii "name", .str name), (ascii "value", .str value), (ascii "inline", .bool true)] rest :=
    Json.readsMembers_cons (readName_name _) (reads_name hname) rfl hboth
  exact Json.reads_obj (skipSpace_field value rest name) (skipSpace_name _) hall

/-- A field is read as its value only if nothing in the value has to be escaped. -/
theorem plain_of_field (hname : Json.Plain name) {fuel : Nat} {r : CString}
    (h : Json.readValue fuel (fieldText name value rest) = some (field name value, r)) :
    Json.Plain value ∧ r = rest := by
  obtain ⟨_, hmembers⟩ := Json.readValue_obj (skipSpace_field value rest name) (skipSpace_name _) h
  obtain ⟨_, hmore⟩ := Json.readMembers_past hmembers (readName_name _) (reads_name hname)
    (skipSpace_behindName value rest)
  obtain ⟨_, s, hx, hend⟩ := Json.readMembers_head hmore (readName_value _)
  have hv := Json.readValue_str (skipSpace_quote _) hx
  have hplain : Json.Plain value := @Json.plain_of_readString _ _ (ascii ", ")
    (ascii "inline\": true \x7d" ++ rest) (by decide) hv
  have hread := Json.readString_plain hplain (ascii ", \"inline\": true \x7d" ++ rest)
  obtain ⟨-, rfl⟩ := Prod.mk.inj (Option.some.inj (hv.symm.trans hread))
  rw [skipSpace_behindValue] at hend
  rcases hend with ⟨-, hskip⟩ | ⟨t, hskip, hinline⟩
  · exact absurd (List.cons.inj hskip).1 (by decide)
  · obtain ⟨-, rfl⟩ := List.cons.inj hskip
    exact ⟨hplain, Json.readMembers_end hinline (readName_inline rest) (reads_inline rest)
      (skipSpace_inline rest)⟩

end

/-! ## Payloads -/

section

variable (rest : CString)

theorem readName_username :
    Json.readName (ascii "  \"username\": \"FeX Warlog\"," ++ rest) =
      some (ascii "username", ascii " \"FeX Warlog\"," ++ rest) := rfl

theorem reads_username : Json.Reads 1 (ascii " \"FeX Warlog\"," ++ rest)
    (.str (ascii "FeX Warlog")) (ascii "," ++ rest) := Json.reads_str rfl rfl

theorem readName_embeds : Json.readName (ascii "  \"embeds\": [" ++ rest) =
    some (ascii "embeds", ascii " [" ++ rest) := rfl

theorem readName_title : Json.readName (ascii "      \"title\": \"" ++ rest) =
    some (ascii "title", ascii " \"" ++ rest) := rfl

theorem readName_color : Json.readName (ascii "      \"color\": " ++ rest) =
    some (ascii "color", ascii " " ++ rest) := rfl

theorem readName_fields : Json.readName (ascii "      \"fields\": [" ++ rest) =
    some (ascii "fields", ascii " [" ++ rest) := rfl

theorem readName_footer : Json.readName (ascii "      \"footer\": \x7b" ++ rest) =
    some (ascii "footer", ascii " \x7b" ++ rest) := rfl

theorem readName_text : Json.readName (ascii " \"text\": \"" ++ rest) =
    some (ascii "text", ascii " \"" ++ rest) := rfl

theorem reads_color (color : Int) :
    Json.Reads 1 (ascii " " ++ (formatInt color ++ (ascii ",      \"fields\": [" ++ rest)))
      (.int color) (ascii ",      \"fields\": [" ++ rest) := by
  obtain ⟨c, l, hcons, hc⟩ := Engine.JsonWriter.CJsonStringWriter.formatInt_cons color
  refine Engine.JsonWriter.CJsonStringWriter.reads_int color ?_ fun b hb => ?_
  · have hspace : Json.isSpace c = false := by
      rcases hc with rfl | ⟨hge, -⟩
      · rfl
      · exact Engine.JsonWriter.CJsonStringWriter.isSpace_eq_false (by omega)
    rw [hcons]
    exact (Json.skipSpace_append Engine.JsonWriter.CJsonStringWriter.isSpace_blank _).trans
      (Json.skipSpace_cons hspace _)
  · cases hb
    decide

end

section

variable {title pActor pWarType name value timeStr : CString} {color : Int}

/-- What follows the fields. -/
def footerText (timeStr : CString) : CString :=
  ascii "      ],      \"footer\": \x7b \"text\": \"" ++
    (timeStr ++ ascii "\" \x7d    \x7d  ]\x7d")

def fieldsText (pActor pWarType name value timeStr : CString) : CString :=
  fieldText (ascii "Actor") pActor (ascii "," ++ fieldText (ascii "War Type") pWarType
    (ascii "," ++ fieldText name value (footerText timeStr)))

/-- What follows the title. -/
def colorText (color : Int) (rest : CString) : CString :=
  formatInt color ++ (ascii ",      \"fields\": [" ++ rest)

theorem reads_title (htitle : Json.Plain title) (rest : CString) :
    Json.Reads 1 (ascii " \"" ++ (title ++ (ascii "\",      \"color\": " ++ rest))) (.str title)
      (ascii ",      \"color\": " ++ rest) :=
  Json.reads_str rfl (Json.readString_plain htitle _)

theorem plain_actor : Json.Plain (ascii "Actor") := by decide

theorem plain_warType : Json.Plain (ascii "War Type") := by decide

/-- The list of the fields, with the bracket behind it. -/
theorem reads_fields (hactor : Json.Plain pActor) (htype : Json.Plain pWarType)
    (hname : Json.Plain name) (hvalue : Json.Plain value) :
    Json.ReadsElements 24 (fieldsText pActor pWarType name value timeStr)
      [field (ascii "Actor") pActor, field (ascii "War Type") pWarType, field name value]
      (ascii ",      \"footer\": \x7b \"text\": \"" ++
        (timeStr ++ ascii "\" \x7d    \x7d  ]\x7d")) :=
  Json.readsElements_cons (reads_field plain_actor hactor) rfl
    (Json.readsElements_cons (reads_field plain_warType htype) rfl
      (Json.readsElements_last (reads_field hname hvalue) rfl))

theorem reads_footer (htime : Json.Plain timeStr) :
    Json.ReadsMembers 4 (ascii "      \"footer\": \x7b \"text\": \"" ++
        (timeStr ++ ascii "\" \x7d    \x7d  ]\x7d"))
      [(ascii "footer", .obj [(ascii "text", .str timeStr)])] (ascii "  ]\x7d") := by
  have htext : Json.Reads 1 (ascii " \"" ++ (timeStr ++ ascii "\" \x7d    \x7d  ]\x7d"))
      (.str timeStr) (ascii " \x7d    \x7d  ]\x7d") :=
    Json.reads_str rfl (Json.readString_plain htime _)
  have hmember : Json.ReadsMembers 2 (ascii " \"text\": \"" ++
      (timeStr ++ ascii "\" \x7d    \x7d  ]\x7d")) [(ascii "text", .str timeStr)]
      (ascii "    \x7d  ]\x7d") := Json.readsMembers_last (readName_text _) htext rfl
  have hobj : Json.Reads 3 (ascii " \x7b \"text\": \"" ++
      (timeStr ++ ascii "\" \x7d    \x7d  ]\x7d")) (.obj [(ascii "text", .str timeStr)])
      (ascii "    \x7d  ]\x7d") := by
    refine Json.reads_obj rfl ?_ hmember
    rw [show Json.skipSpace _ = 34 :: _ from rfl]
    exact fun h => absurd (Option.some.inj h) (by decide)
  exact Json.readsMembers_last (readName_footer _) hobj rfl

/-- The object of the log, from its title on. -/
def embedText (rest : CString) : CString :=
  ascii "    \x7b" ++ (ascii "      \"title\": \"" ++ rest)

/-- What follows the brace in front. -/
def outerText (rest : CString) : CString :=
  ascii "  \"username\": \"FeX Warlog\"," ++ (ascii "  \"embeds\": [" ++ embedText rest)

theorem payload_eq : jsonPayload title color pActor pWarType name value timeStr =
    123 :: outerText (title ++ (ascii "\",      \"color\": " ++
      colorText color (fieldsText pActor pWarType name value timeStr))) := rfl

theorem skipSpace_comma (rest : CString) : Json.skipSpace (ascii "," ++ rest) = 44 :: rest := rfl

theorem skipSpace_bracket (rest : CString) : Json.skipSpace (ascii " [" ++ rest) = 91 :: rest := rfl

theorem skipSpace_embed (rest : CString) :
    Json.skipSpace (embedText rest) = 123 :: (ascii "      \"title\": \"" ++ rest) := rfl

theorem skipSpace_color (rest : CString) : Json.skipSpace (ascii ",      \"color\": " ++ rest) =
    44 :: (ascii "      \"color\": " ++ rest) := rfl

theorem skipSpace_fields (rest : CString) : Json.skipSpace (ascii ",      \"fields\": [" ++ rest) =
    44 :: (ascii "      \"fields\": [" ++ rest) := rfl

theorem outer_head (rest : CString) : (Json.skipSpace (outerText rest)).head? ≠ some 125 := by
  rw [show Json.skipSpace (outerText rest) = 34 :: _ from rfl]
  exact fun h => absurd (Option.some.inj h) (by decide)

theorem embed_head (rest : CString) : (Json.skipSpace (embedText rest)).head? ≠ some 93 := by
  rw [skipSpace_embed]
  exact fun h => absurd (Option.some.inj h) (by decide)

theorem title_head (rest : CString) :
    (Json.skipSpace (ascii "      \"title\": \"" ++ rest)).head? ≠ some 125 := by
  rw [show Json.skipSpace _ = 34 :: _ from rfl]
  exact fun h => absurd (Option.some.inj h) (by decide)

theorem fields_head :
    (Json.skipSpace (fieldsText pActor pWarType name value timeStr)).head? ≠ some 93 := by
  rw [fieldsText, skipSpace_field]
  exact fun h => absurd (Option.some.inj h) (by decide)

theorem reads_payload (htitle : Json.Plain title) (hactor : Json.Plain pActor)
    (htype : Json.Plain pWarType) (hname : Json.Plain name) (hvalue : Json.Plain value)
    (htime : Json.Plain timeStr) :
    Json.Reads 41 (jsonPayload title color pActor pWarType name value timeStr)
      (logTree title color pActor pWarType name value timeStr) [] := by
  have hfields : Json.Reads 25 (ascii " [" ++ fieldsText pActor pWarType name value timeStr)
      (.arr [field (ascii "Actor") pActor, field (ascii "War Type") pWarType, field name value])
      (ascii ",      \"footer\": \x7b \"text\": \"" ++
        (timeStr ++ ascii "\" \x7d    \x7d  ]\x7d")) :=
    Json.reads_arr (skipSpace_bracket _) fields_head (reads_fields hactor htype hname hvalue)
  have hembed := Json.reads_obj (skipSpace_embed _) (title_head _)
    (Json.readsMembers_cons (readName_title _) (reads_title htitle _) (skipSpace_color _)
      (Json.readsMembers_cons (readName_color _) (reads_color _ color) (skipSpace_fields _)
        (Json.readsMembers_cons (readName_fields _) hfields rfl (reads_footer htime))))
  have hembeds := Json.reads_arr (skipSpace_bracket _) (embed_head _)
    (Json.readsElements_last hembed (show _ = 93 :: ascii "\x7d" from rfl))
  rw [payload_eq]
  exact Json.reads_obj rfl (outer_head _)
    (Json.readsMembers_cons (readName_username _) (reads_username _) (skipSpace_comma _)
      (Json.readsMembers_last (readName_embeds _) hembeds rfl))

/-- The list of the fields is read as the texts only if they have nothing to escape. -/
theorem plain_of_fields (hname : Json.Plain name) {fuel : Nat} {rest : CString}
    (h : Json.readElements fuel (fieldsText pActor pWarType name value timeStr) =
      some ([field (ascii "Actor") pActor, field (ascii "War Type") pWarType, field name value],
        rest)) : Json.Plain pActor ∧ Json.Plain pWarType ∧ Json.Plain value := by
  obtain ⟨_, s, hactor, hend | ⟨s', hcomma, hmore⟩⟩ := Json.readElements_head h
  · cases hend
  obtain ⟨hplain, rfl⟩ := plain_of_field plain_actor hactor
  obtain ⟨-, rfl⟩ := List.cons.inj ((skipSpace_comma _).symm.trans hcomma)
  obtain ⟨_, s, htype, hend | ⟨s', hcomma', hmore'⟩⟩ := Json.readElements_head hmore
  · cases hend
  obtain ⟨hplain', rfl⟩ := plain_of_field plain_warType htype
  obtain ⟨-, rfl⟩ := List.cons.inj ((skipSpace_comma _).symm.trans hcomma')
  obtain ⟨_, s, hvalue, -⟩ := Json.readElements_head hmore'
  exact ⟨hplain, hplain', (plain_of_field hname hvalue).1⟩

/-- The payload is read as the tree of its texts only if they have nothing to escape. -/
theorem plain_of_payload (htitle : Json.Plain title) (hname : Json.Plain name)
    (h : Json.parse (jsonPayload title color pActor pWarType name value timeStr) =
      some (logTree title color pActor pWarType name value timeStr)) :
    Json.Plain pActor ∧ Json.Plain pWarType ∧ Json.Plain value := by
  obtain ⟨_, rest, hread⟩ := Json.readValue_of_parse h
  rw [payload_eq] at hread
  obtain ⟨_, houter⟩ := Json.readValue_obj rfl (outer_head _) hread
  obtain ⟨_, hembeds⟩ := Json.readMembers_past houter (readName_username _) (reads_username _)
    (skipSpace_comma _)
  obtain ⟨_, s, hlist, -⟩ := Json.readMembers_head hembeds (readName_embeds _)
  obtain ⟨_, helements⟩ := Json.readValue_arr (skipSpace_bracket _) (embed_head _) hlist
  obtain ⟨_, s, hembed, -⟩ := Json.readElements_head helements
  obtain ⟨_, hmembers⟩ := Json.readValue_obj (skipSpace_embed _) (title_head _) hembed
  obtain ⟨_, hcolor⟩ := Json.readMembers_past hmembers (readName_title _) (reads_title htitle _)
    (skipSpace_color _)
  obtain ⟨_, hfields⟩ := Json.readMembers_past hcolor (readName_color _) (reads_color _ color)
    (skipSpace_fields _)
  obtain ⟨_, s, harr, -⟩ := Json.readMembers_head hfields (readName_fields _)
  obtain ⟨_, hall⟩ := Json.readValue_arr (skipSpace_bracket _) fields_head harr
  exact plain_of_fields hname hall

theorem parse_payload_iff (htitle : Json.Plain title) (hname : Json.Plain name)
    (htime : Json.Plain timeStr) :
    Json.parse (jsonPayload title color pActor pWarType name value timeStr) =
        some (logTree title color pActor pWarType name value timeStr) ↔
      Json.Plain pActor ∧ Json.Plain pWarType ∧ Json.Plain value := by
  refine ⟨plain_of_payload htitle hname, fun ⟨hactor, htype, hvalue⟩ => ?_⟩
  have hlength : 41 ≤ (jsonPayload title color pActor pWarType name value timeStr).length := by
    have hhead : 41 ≤ (ascii
      "\x7b  \"username\": \"FeX Warlog\",  \"embeds\": [    \x7b      \"title\": \"").length := by
      decide
    unfold jsonPayload
    rw [List.length_append]
    omega
  exact Json.parse_eq (reads_payload htitle hactor htype hname hvalue htime) hlength rfl

end

/-! ## Logs -/

section

variable {ColorToInt : ColorRGBA → Int} {timeStr : CString} {c : Settings}
  {pActor pWarType pTarget pClan : CString}

/-- The tree that a log should have. -/
def expected (title : CString) (ColorToInt : ColorRGBA → Int) (timeStr : CString) (c : Settings)
    (pActor pWarType pTarget pClan : CString) : Json :=
  logTree title (embedColor ColorToInt c.m_WarTypes pWarType) pActor pWarType
    (if pClan ≠ [] then ascii "Clan" else ascii "Target") (if pClan ≠ [] then pClan else pTarget)
    timeStr

theorem sent_payload {title json : CString}
    (h : sendLog title ColorToInt timeStr c pActor pWarType pTarget pClan = some json) :
    json = jsonPayload title (embedColor ColorToInt c.m_WarTypes pWarType) pActor pWarType
      (if pClan ≠ [] then ascii "Clan" else ascii "Target") (if pClan ≠ [] then pClan else pTarget)
      timeStr := by
  unfold sendLog at h
  split at h
  · cases h
  split at h
  · cases h
  split at h
  · cases h
  · exact (Option.some.inj (Option.ite_none_left_eq_some.mp h).2).symm

theorem plain_extraName : Json.Plain (if pClan ≠ [] then ascii "Clan" else ascii "Target") := by
  split
  · decide
  · decide

theorem sent_iff {title json : CString} (htitle : Json.Plain title) (htime : Json.Plain timeStr)
    (h : sendLog title ColorToInt timeStr c pActor pWarType pTarget pClan = some json) :
    Json.parse json = some (expected title ColorToInt timeStr c pActor pWarType pTarget pClan) ↔
      Json.Plain pActor ∧ Json.Plain pWarType ∧ Json.Plain (if pClan ≠ [] then pClan else pTarget) := by
  rw [sent_payload h]
  exact parse_payload_iff htitle plain_extraName htime

/-- What is sent is the log of the given texts exactly if they have nothing to escape. -/
theorem faithful_iff (ColorToInt : ColorRGBA → Int) (timeStr : CString) (c : Settings)
    (pActor pWarType pTarget pClan json : CString) (htime : Json.Plain timeStr) :
    (SendDiscordLog ColorToInt timeStr c pActor pWarType pTarget pClan = some json →
      (Json.parse json = some (expected (ascii "War Log Addition") ColorToInt timeStr c pActor pWarType
          pTarget pClan) ↔
        Json.Plain pActor ∧ Json.Plain pWarType ∧
          Json.Plain (if pClan ≠ [] then pClan else pTarget))) ∧
    (SendDiscordLogRemoval ColorToInt timeStr c pActor pWarType pTarget pClan = some json →
      (Json.parse json = some (expected (ascii "War Log Deletion") ColorToInt timeStr c pActor pWarType
          pTarget pClan) ↔
        Json.Plain pActor ∧ Json.Plain pWarType ∧
          Json.Plain (if pClan ≠ [] then pClan else pTarget))) :=
  ⟨sent_iff (by decide) htime, sent_iff (by decide) htime⟩

end

/-- One webhook and no scheme. -/
def exampleSettings : Settings where
  m_ClDiscordWebhooks := true
  m_ClDiscordWebhookScheme := []
  m_Webhooks := [⟨ascii "https://a", true⟩]
  m_WarTypes := []

/-- The player `a` adds `b` as an enemy. -/
theorem faithful_iff_enemy :
    Json.parse (jsonPayload (ascii "War Log Addition") 0xffffff [97] (ascii "enemy")
        (ascii "Target") [98] (ascii "12:00")) =
      some (expected (ascii "War Log Addition") (fun _ => 0) (ascii "12:00") exampleSettings [97]
        (ascii "enemy") [98] []) := by
  have hsent : SendDiscordLog (fun _ => 0) (ascii "12:00") exampleSettings [97] (ascii "enemy") [98]
      [] = some (jsonPayload (ascii "War Log Addition") 0xffffff [97] (ascii "enemy")
        (ascii "Target") [98] (ascii "12:00")) := by decide +kernel
  exact ((faithful_iff (fun _ => 0) (ascii "12:00") exampleSettings [97] (ascii "enemy") [98] [] _
    (by decide)).1 hsent).mpr ⟨by decide, by decide, by decide⟩

/-- A player with a quote as the name: what is sent is no JSON text. -/
theorem not_faithful :
    ∃ json, SendDiscordLog (fun _ => 0) (ascii "12:00") exampleSettings [34] (ascii "enemy") [98] [] =
        some json ∧ (Json.parse json).isNone ∧
      Json.parse json ≠ some (expected (ascii "War Log Addition") (fun _ => 0) (ascii "12:00")
        exampleSettings [34] (ascii "enemy") [98] []) := by
  refine ⟨jsonPayload (ascii "War Log Addition") 0xffffff [34] (ascii "enemy") (ascii "Target") [98]
    (ascii "12:00"), by decide +kernel, by decide +kernel, fun h => ?_⟩
  have hplain := (plain_of_payload (by decide) (by decide) h).1
  revert hplain
  decide

end Fex.Client.WarLog
