import RsDragonfly.Library.Scrape
import RsDragonfly.Shard.Shard

/-! `observability/metrics.rs` and `observability/prometheus.rs`: the page a scraper gets.
Nothing in the server writes these counters, as each worker counts in metrics of its own. -/
namespace RsDragonfly
open Library

structure GlobalMetrics where
  uptimeStart : Instant
  connectionsTotal : UInt64
  connectionsActive : UInt64
  commandsTotal : UInt64
  commandErrorsTotal : UInt64

def GlobalMetrics.new (now : Instant) : GlobalMetrics := ⟨now, 0, 0, 0, 0⟩

def GlobalMetrics.uptimeSeconds (m : GlobalMetrics) (now : Instant) : UInt64 :=
  Duration.asSecs (now.saturatingDurationSince m.uptimeStart)

/-- `ShardMetrics` with the two counters of snapshots that the page shows. -/
structure ExportedMetrics extends ShardMetrics where
  snapshotsWritten : UInt64
  snapshotWriteErrors : UInt64

def metricHead (name help kind : String) : String :=
  "# HELP " ++ name ++ " " ++ help ++ "\n" ++ ("# TYPE " ++ name ++ " " ++ kind ++ "\n")

def metricLine (series : String) (value : UInt64) : String :=
  series ++ " " ++ toString value ++ "\n"

def globalMetric (name help kind : String) (value : UInt64) : String :=
  metricHead name help kind ++ metricLine name value

def shardSeries (name : String) (i : Nat) : String :=
  name ++ "\x7bshard=\"" ++ toString i ++ "\"\x7d"

def shardMetric (name help kind : String) (counter : ExportedMetrics → UInt64)
    (shards : List ExportedMetrics) : String :=
  metricHead name help kind ++
    String.join (shards.zipIdx.map fun x => metricLine (shardSeries name x.2) (counter x.1))

def formatPrometheusMetrics (now : Instant) (global : GlobalMetrics)
    (shards : List ExportedMetrics) : String :=
  globalMetric "rsdragonfly_uptime_seconds" "Server uptime in seconds" "gauge"
      (global.uptimeSeconds now) ++
    globalMetric "rsdragonfly_connections_active" "Active client connections" "gauge"
      global.connectionsActive ++
    globalMetric "rsdragonfly_connections_total" "Total connections accepted" "counter"
      global.connectionsTotal ++
    shardMetric "rsdragonfly_shard_commands_total" "Commands processed per shard" "counter"
      (·.commandsProcessed) shards ++
    shardMetric "rsdragonfly_shard_keys" "Current key count per shard" "gauge"
      (·.keyCount) shards ++
    shardMetric "rsdragonfly_shard_memory_bytes" "Memory usage per shard" "gauge"
      (·.memoryBytes) shards ++
    shardMetric "rsdragonfly_shard_keys_expired_total" "Keys expired per shard" "counter"
      (·.keysExpired) shards ++
    shardMetric "rsdragonfly_shard_snapshots_written_total" "Snapshots written per shard" "counter"
      (·.snapshotsWritten) shards ++
    shardMetric "rsdragonfly_shard_snapshot_write_errors_total" "Snapshot write errors per shard"
      "counter" (·.snapshotWriteErrors) shards

/-- `handle_metrics_request`: the bytes written to the socket, whatever the request was. -/
def handleMetricsRequest (now : Instant) (global : GlobalMetrics)
    (shards : List ExportedMetrics) : Bytes :=
  let metricsText := formatPrometheusMetrics now global shards
  utf8 ("HTTP/1.1 200 OK\r\nContent-Type: text/plain; version=0.0.4\r\nContent-Length: " ++
    toString (utf8 metricsText).length ++ "\r\n\r\n" ++ metricsText)

/-! What a scraper reads of that page. -/

def globalSample (name : String) (value : UInt64) : Scrape.Sample := ⟨name.toList, value.toNat⟩

def shardSamples (name : String) (counter : ExportedMetrics → UInt64)
    (shards : List ExportedMetrics) : List Scrape.Sample :=
  shards.zipIdx.map fun x => ⟨(shardSeries name x.2).toList, (counter x.1).toNat⟩

/-- The samples of each metric, under its name. -/
def metricSamples (now : Instant) (global : GlobalMetrics) (shards : List ExportedMetrics) :
    List (String × List Scrape.Sample) :=
  [ ("rsdragonfly_uptime_seconds",
      [globalSample "rsdragonfly_uptime_seconds" (global.uptimeSeconds now)]),
    ("rsdragonfly_connections_active",
      [globalSample "rsdragonfly_connections_active" global.connectionsActive]),
    ("rsdragonfly_connections_total",
      [globalSample "rsdragonfly_connections_total" global.connectionsTotal]),
    ("rsdragonfly_shard_commands_total",
      shardSamples "rsdragonfly_shard_commands_total" (·.commandsProcessed) shards),
    ("rsdragonfly_shard_keys", shardSamples "rsdragonfly_shard_keys" (·.keyCount) shards),
    ("rsdragonfly_shard_memory_bytes",
      shardSamples "rsdragonfly_shard_memory_bytes" (·.memoryBytes) shards),
    ("rsdragonfly_shard_keys_expired_total",
      shardSamples "rsdragonfly_shard_keys_expired_total" (·.keysExpired) shards),
    ("rsdragonfly_shard_snapshots_written_total",
      shardSamples "rsdragonfly_shard_snapshots_written_total" (·.snapshotsWritten) shards),
    ("rsdragonfly_shard_snapshot_write_errors_total",
      shardSamples "rsdragonfly_shard_snapshot_write_errors_total" (·.snapshotWriteErrors)
        shards) ]

def pageSamples (now : Instant) (global : GlobalMetrics) (shards : List ExportedMetrics) :
    List Scrape.Sample :=
  (metricSamples now global shards).flatMap (·.2)

theorem shows_metricHead {name help kind : String} (name_line : '\n' ∉ name.toList)
    (help_line : '\n' ∉ help.toList) (kind_line : '\n' ∉ kind.toList) :
    Scrape.Shows (metricHead name help kind).toList [] := by
  have first := Scrape.Shows.comment (" HELP ".toList ++ name.toList ++ " ".toList ++ help.toList)
    (by simp [name_line, help_line])
  have second := Scrape.Shows.comment (" TYPE ".toList ++ name.toList ++ " ".toList ++ kind.toList)
    (by simp [name_line, kind_line])
  simpa [metricHead] using first.append second

theorem shows_metricLine {series : String} (word : Scrape.Word series.toList) (value : UInt64) :
    Scrape.Shows (metricLine series value).toList [⟨series.toList, value.toNat⟩] := by
  have digits : (toString value).toList = Nat.toDigits 10 value.toNat := Nat.toList_repr
  have line := Scrape.Shows.sample (s := ⟨series.toList, value.toNat⟩) word
  simpa [metricLine, digits] using line

theorem word_shardSeries {name : String} (word : Scrape.Word name.toList) (i : Nat) :
    Scrape.Word (shardSeries name i).toList := by
  have digits : (toString i).toList = Nat.toDigits 10 i := Nat.toList_repr
  have absent (c : Char) (sign : c.isDigit = false) : c ∉ Nat.toDigits 10 i := by
    intro member
    have digit := Nat.isDigit_of_mem_toDigits (by decide) (by decide) member
    rw [sign] at digit
    contradiction
  have label : Scrape.Word (name.toList ++ ("\x7bshard=\"".toList ++ Nat.toDigits 10 i ++
      "\"\x7d".toList)) :=
    word.append (by simp [absent]) (by simp [absent])
  simpa [shardSeries, digits] using label

theorem shows_globalMetric {name help kind : String} (word : Scrape.Word name.toList)
    (help_line : '\n' ∉ help.toList) (kind_line : '\n' ∉ kind.toList) (value : UInt64) :
    Scrape.Shows (globalMetric name help kind value).toList [globalSample name value] := by
  have head := shows_metricHead word.one_line help_line kind_line
  have line := shows_metricLine word value
  simpa [globalMetric, globalSample] using head.append line

theorem toList_join (strings : List String) :
    (String.join strings).toList = strings.flatMap String.toList := by
  induction strings with
  | nil => rfl
  | cons s strings ih => simp [ih]

theorem shows_shardMetric {name help kind : String} (word : Scrape.Word name.toList)
    (help_line : '\n' ∉ help.toList) (kind_line : '\n' ∉ kind.toList)
    (counter : ExportedMetrics → UInt64) (shards : List ExportedMetrics) :
    Scrape.Shows (shardMetric name help kind counter shards).toList
      (shardSamples name counter shards) := by
  have head := shows_metricHead word.one_line help_line kind_line
  have line : ∀ x ∈ shards.zipIdx,
      Scrape.Shows (metricLine (shardSeries name x.2) (counter x.1)).toList
        [⟨(shardSeries name x.2).toList, (counter x.1).toNat⟩] :=
    fun x _ => shows_metricLine (word_shardSeries word x.2) (counter x.1)
  have samples : shardSamples name counter shards = shards.zipIdx.flatMap fun x =>
      [⟨(shardSeries name x.2).toList, (counter x.1).toNat⟩] := List.map_eq_flatMap
  rw [shardMetric, String.toList_append, toList_join, List.flatMap_map, samples]
  exact head.append (Scrape.Shows.flatMap line)

theorem shows_page (now : Instant) (global : GlobalMetrics) (shards : List ExportedMetrics) :
    Scrape.Shows (formatPrometheusMetrics now global shards).toList
      (pageSamples now global shards) := by
  simp only [formatPrometheusMetrics, pageSamples, metricSamples, String.toList_append,
    List.append_assoc, List.flatMap_cons, List.flatMap_nil, List.append_nil]
  exact (shows_globalMetric (by decide) (by decide) (by decide) _).append <|
    (shows_globalMetric (by decide) (by decide) (by decide) _).append <|
    (shows_globalMetric (by decide) (by decide) (by decide) _).append <|
    (shows_shardMetric (by decide) (by decide) (by decide) _ _).append <|
    (shows_shardMetric (by decide) (by decide) (by decide) _ _).append <|
    (shows_shardMetric (by decide) (by decide) (by decide) _ _).append <|
    (shows_shardMetric (by decide) (by decide) (by decide) _ _).append <|
    (shows_shardMetric (by decide) (by decide) (by decide) _ _).append <|
    shows_shardMetric (by decide) (by decide) (by decide) _ _

/-! A series is named once: its metric is what stands before the brace. -/

def metricOf (series : List Char) : List Char := series.takeWhile (· ≠ '\x7b')

theorem metricOf_append {name : String} (braceless : '\x7b' ∉ name.toList) (rest : List Char) :
    metricOf (name.toList ++ rest) = name.toList ++ metricOf rest := by
  apply List.takeWhile_append_of_pos
  intro c member
  exact decide_eq_true fun brace => braceless (brace ▸ member)

theorem metricOf_name {name : String} (braceless : '\x7b' ∉ name.toList) :
    metricOf name.toList = name.toList := by
  simpa [metricOf] using metricOf_append braceless []

theorem metricOf_shardSeries {name : String} (braceless : '\x7b' ∉ name.toList) (i : Nat) :
    metricOf (shardSeries name i).toList = name.toList := by
  simp only [shardSeries, String.toList_append, List.append_assoc]
  rw [metricOf_append braceless]
  simp [metricOf]

theorem shardSeries_injective {name : String} {i j : Nat}
    (same : (shardSeries name i).toList = (shardSeries name j).toList) : i = j := by
  have digits (n : Nat) : (toString n).toList = Nat.toDigits 10 n := Nat.toList_repr
  have numbers : Nat.toDigits 10 i = Nat.toDigits 10 j := by simpa [shardSeries, digits] using same
  have read := congrArg Scrape.readNumber numbers
  simpa only [Scrape.readNumber_toDigits, Option.some.injEq] using read

/-- The samples are those of series of this metric, each once. -/
structure OfMetric (name : String) (samples : List Scrape.Sample) : Prop where
  metric : ∀ s ∈ samples, metricOf s.series = name.toList
  once : (samples.map Scrape.Sample.series).Nodup

theorem ofMetric_globalSample {name : String} (braceless : '\x7b' ∉ name.toList) (value : UInt64) :
    OfMetric name [globalSample name value] := by
  constructor
  · intro s member
    rw [List.mem_singleton.mp member]
    exact metricOf_name braceless
  · exact List.nodup_singleton _

theorem ofMetric_shardSamples {name : String} (braceless : '\x7b' ∉ name.toList)
    (counter : ExportedMetrics → UInt64) (shards : List ExportedMetrics) :
    OfMetric name (shardSamples name counter shards) := by
  constructor
  · intro s member
    obtain ⟨x, -, rfl⟩ := List.mem_map.mp member
    exact metricOf_shardSeries braceless x.2
  · have series : (shardSamples name counter shards).map Scrape.Sample.series =
        (shards.zipIdx.map Prod.snd).map fun i => (shardSeries name i).toList := by
      simp only [shardSamples, List.map_map]
      rfl
    rw [series, List.zipIdx_map_snd]
    exact (List.nodup_range' ..).map fun i j same => shardSeries_injective same

theorem ofMetric_metricSamples (now : Instant) (global : GlobalMetrics)
    (shards : List ExportedMetrics) :
    ∀ metric ∈ metricSamples now global shards, OfMetric metric.1 metric.2 := by
  simp only [metricSamples, List.forall_mem_cons]
  exact ⟨ofMetric_globalSample (by decide) _, ofMetric_globalSample (by decide) _,
    ofMetric_globalSample (by decide) _, ofMetric_shardSamples (by decide) _ _,
    ofMetric_shardSamples (by decide) _ _, ofMetric_shardSamples (by decide) _ _,
    ofMetric_shardSamples (by decide) _ _, ofMetric_shardSamples (by decide) _ _,
    ofMetric_shardSamples (by decide) _ _, List.forall_mem_nil _⟩

theorem series_nodup (now : Instant) (global : GlobalMetrics) (shards : List ExportedMetrics) :
    ((pageSamples now global shards).map Scrape.Sample.series).Nodup := by
  have metrics := ofMetric_metricSamples now global shards
  have names : (metricSamples now global shards).Pairwise fun m n => m.1 ≠ n.1 := by
    apply List.pairwise_map.mp
    simp only [metricSamples, List.map_cons, List.map_nil]
    decide
  rw [pageSamples, List.map_flatMap, List.nodup_flatMap]
  refine ⟨fun metric member => (metrics metric member).once, ?_⟩
  apply names.imp_of_mem
  intro m n first second distinct series here there
  obtain ⟨s, of_first, rfl⟩ := List.mem_map.mp here
  obtain ⟨t, of_second, same⟩ := List.mem_map.mp there
  apply distinct
  apply String.toList_injective
  calc m.1.toList = metricOf s.series := ((metrics m first).metric s of_first).symm
    _ = metricOf t.series := by rw [same]
    _ = n.1.toList := (metrics n second).metric t of_second

/-! The response around the page. -/

theorem utf8_append (s t : String) : utf8 (s ++ t) = utf8 s ++ utf8 t :=
  Utf8.bytes_append s t

/-- The lines of the response above its body. -/
def responseHead (size : Nat) : List Bytes :=
  [utf8 "HTTP/1.1 200 OK", utf8 "Content-Type: text/plain; version=0.0.4",
    utf8 ("Content-Length: " ++ toString size)]

theorem contentLengthOf_utf8 (size : Nat) :
    Scrape.contentLengthOf (utf8 ("Content-Length: " ++ toString size)) = some size := by
  have digits : (toString size).toList = Nat.toDigits 10 size := Nat.toList_repr
  simp only [Scrape.contentLengthOf, utf8, Utf8.lossy_encoded, String.toList_append]
  rw [if_pos (List.isPrefixOf_iff_prefix.mpr (List.prefix_append _ _)), List.drop_left, digits]
  exact Scrape.readNumber_toDigits size

theorem contentLengthOf_responseHead (size : Nat) :
    (responseHead size).findSome? Scrape.contentLengthOf = some size := by
  have status : Scrape.contentLengthOf (utf8 "HTTP/1.1 200 OK") = none := by
    simp only [Scrape.contentLengthOf, utf8, Utf8.lossy_encoded]
    decide
  have kind : Scrape.contentLengthOf (utf8 "Content-Type: text/plain; version=0.0.4") = none := by
    simp only [Scrape.contentLengthOf, utf8, Utf8.lossy_encoded]
    decide
  simp only [responseHead, List.findSome?_cons, status, kind, contentLengthOf_utf8]

theorem responseHead_lines (size : Nat) :
    ∀ line ∈ responseHead size, line ≠ [] ∧ 10 ∉ line := by
  have written (s : String) (named : s.toList ≠ []) (one_line : '\n' ∉ s.toList) :
      utf8 s ≠ [] ∧ 10 ∉ utf8 s := by
    constructor
    · intro empty
      apply named
      have back := Utf8.lossy_encoded s
      rw [show s.toUTF8.data.toList = [] from empty] at back
      rw [← back]
      rfl
    · rw [utf8, Utf8.lineFeed_mem_encoded]
      exact one_line
  have digits : '\n' ∉ Nat.toDigits 10 size := by
    intro member
    exact absurd (Nat.isDigit_of_mem_toDigits (by decide) (by decide) member) (by decide)
  simp only [responseHead, List.forall_mem_cons]
  exact ⟨written _ (by decide) (by decide), written _ (by decide) (by decide),
    written _ (by simp) (by simp [digits]), List.forall_mem_nil _⟩

theorem handleMetricsRequest_eq (now : Instant) (global : GlobalMetrics)
    (shards : List ExportedMetrics) :
    handleMetricsRequest now global shards =
      Scrape.writeMessage (responseHead (utf8 (formatPrometheusMetrics now global shards)).length)
        (utf8 (formatPrometheusMetrics now global shards)) := by
  have feed : utf8 "\r\n" = [13, 10] := by decide
  have status : "HTTP/1.1 200 OK\r\nContent-Type: text/plain; version=0.0.4\r\nContent-Length: " =
      "HTTP/1.1 200 OK" ++ "\r\n" ++ "Content-Type: text/plain; version=0.0.4" ++ "\r\n" ++
        "Content-Length: " := by decide
  have last : "\r\n\r\n" = "\r\n" ++ "\r\n" := by decide
  simp only [handleMetricsRequest, status, last, utf8_append, feed]
  simp [Scrape.writeMessage, responseHead, utf8_append]

/-- The response to any request is a whole message, whatever the counters are: its body has
the length that its head gives, and a scraper finds in it each series once with its value. -/
theorem metrics_scraped (now : Instant) (global : GlobalMetrics)
    (shards : List ExportedMetrics) :
    Scrape.scrape (handleMetricsRequest now global shards) =
        some (pageSamples now global shards) ∧
      ((pageSamples now global shards).map Scrape.Sample.series).Nodup := by
  refine ⟨?_, series_nodup now global shards⟩
  have message := Scrape.readMessage_append (responseHead_lines _)
    (contentLengthOf_responseHead (utf8 (formatPrometheusMetrics now global shards)).length) []
  rw [List.append_nil, ← handleMetricsRequest_eq] at message
  rw [Scrape.scrape, message, Option.bind_eq_bind, Option.bind_some]
  simp only [if_true, utf8, Utf8.lossy_encoded]
  exact (shows_page now global shards).read

end RsDragonfly
