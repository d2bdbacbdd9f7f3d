import Vcu.Lib.Machine
import Vcu.Lib.Window
import Vcu.Rtp.Parser.Lemmas
import Vcu.ByteArray.Lemmas
import Vcu.Rtp.Packets
import Vcu.Rtp.Stream
import Vcu.Rtp.Bounds
import Vcu.Rtp.RoundTrip
import Vcu.Rtp.Checks
import Vcu.Rtp.Ring
import Vcu.Rtp.Ring.Lemmas
import Vcu.Lib.Reorder
import Vcu.Rtp.Ring.Order
import Vcu.Rtp.Path
import Vcu.Rtp.Ring.Loss
import Vcu.Fpga.Control
import Vcu.Fpga.Matching
import Vcu.Fpga.Draining
import Vcu.Fpga.Memory
import Vcu.DataSend
import Vcu.Main
import Vcu.Main.Restart
import Vcu.Main.Timestamps
import Vcu.Lib.Custody
import Vcu.DmaUtils
import Vcu.Xdma.Transfers
import Vcu.Main.Frames
import Vcu.Main.Delivery
import Vcu.AircraftDataParser
import Vcu.AircraftDataParser.Backlog
import Vcu.AircraftDataParser.Noise
import Vcu.Lib.Greedy
import Vcu.Rtp.Ring.Buffers
import Vcu.YoloDetect
import Vcu.YoloDetect.Partition
import Vcu.YoloDetect.Suppression
import Vcu.Common
import Vcu.DataSend.BoxStream
import Vcu.DataSend.Pictures
import Vcu.DataSend.Requests
import Vcu.DataSend.ShortWrites
import Vcu.RtspDataManager.Lockstep
import Vcu.ByteArray.Copies
import Vcu.ByteArray.Safety
import Vcu.DataReceive
import Vcu.DataReceive.Assembly
import Vcu.DataReceive.Handshake
import Vcu.DataReceive.Reassembly
import Vcu.DevManager
import Vcu.DevManager.OpenClose
import Vcu.DevManager.Registers
import Vcu.FileManager
import Vcu.FileManager.Termination
import Vcu.Md5
import Vcu.Md5.Lemmas
import Vcu.Rtp.BufferUse
import Vcu.RtspDataManager.Reports
import Vcu.RtspDataManager.Response
import Vcu.YoloDetect.Letterbox
import Vcu.FileManager.Comments
import Vcu.FileManager.Network
import Vcu.YoloDetect.Rendering
import Vcu.YoloDetect.Grid
import Vcu.YoloDetect.Order
import Vcu.YoloDetect.BoxArray
import Vcu.YoloDetect.Picture
import Vcu.Main.PadData
import Vcu.Main.Planes
import Vcu.Main.FrameScale
import Vcu.AircraftDataParser.Records
import Vcu.ByteArray.Terminator
import Vcu.RtspDataManager.Challenge
import Vcu.RtspDataManager.Sdp
import Vcu.RtspDataManager.Delay
import Vcu.RtspDataManager.Conversation
import Vcu.RtspDataManager.OneConversation
import Vcu.Common.Numbers
import Vcu.PicBufferManager
import Vcu.FpgaDecode.HuffmanCodes
import Vcu.FpgaDecode.Reads
import Vcu.DevManager.PackedTable
import Vcu.Rtp.Ring.Slots
import Vcu.YoloDetect.PartitionLoop
import Vcu.Md5.Streaming
import Vcu.Common.SplitRounds
import Vcu.YoloDetect.Detections
import Vcu.FpgaDecode.Jpeg
