import Harmony.ListenTogether.EndReports
import Harmony.ListenTogether.Playhead
import Harmony.ManagedImport.Restoration
import Harmony.Playback.Convergence
import Harmony.ListenTogether.Presence
import Harmony.ListenTogether.StreamFrames
import Harmony.ListenTogether.Following
import Harmony.ManagedImport.UploadRuns
import Harmony.LibraryReads.Pages
import Harmony.BrowserEngine.Reconnecting
import Harmony.PlaybackProvider.NewestChoice
import Harmony.MediaProxy.Playlists
import Harmony.ListenTogether.RateLimits
import Harmony.PolicyConfig.Originals
import Harmony.Waveform.Versions
import Harmony.Lyrics.Lookups
import Harmony.External.Resolutions
import Harmony.DeviceVolume.HandOffRuns
import Harmony.ListenTogether.AudioStreams
import Harmony.ListenTogether.RoomCommands
import Harmony.Search.Matching
import Harmony.Search.OwnName
import Harmony.Processing.Settings
import Harmony.Player.MpvReaders
import Harmony.Player.Desktop
import Harmony.Player.Heard
import Harmony.QueueStream.Desktop
import Harmony.QueueStream.Web
import Harmony.ManagedImport.Staging
import Harmony.ManagedImport.AlbumMatches
import Harmony.ManagedImport.BatchConsistency
import Harmony.ServeFile.Responses
import Harmony.Playback.StoredSources
import Harmony.Inspect.Mp3Layout
import Harmony.Inspect.Id3Credits
import Harmony.Inspect.M4aTrees
import Harmony.Inspect.VorbisSamples
import Harmony.Radio.Icy
import Harmony.Waveform.PeakBuckets
import Harmony.PlaybackProvider.QueuePlace
import Harmony.External.PlaylistLinks
import Harmony.Radio.AacFamily
